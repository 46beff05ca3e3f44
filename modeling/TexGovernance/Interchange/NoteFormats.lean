import TexGovernance.Interchange.Note
import TexGovernance.Lib.JsonLoads
import TexGovernance.Lib.StrictBase64
import TexGovernance.Lib.Pipeline

/-!
# What the note formats determine

A checkpoint is read back from its note text, and a note from its signed form.
-/

namespace TexGovernance.Interchange
open PyStr PyBytes PyCodec Sha256 JsonLoads TexGovernance.Ecosystem

def joinLines (lines : List Str) : Str := (lines.map fun line => line ++ [newline]).flatten

theorem splitNewline_line {line : Str} (h : newline ∉ line) : splitNewline line = [line] := by
  induction line with
  | nil => rfl
  | cons c line ih =>
    have hc : c ≠ newline := fun hc => h (by rw [hc]; exact List.mem_cons_self ..)
    rw [splitNewline, if_neg hc, ih fun hmem => h (List.mem_cons_of_mem _ hmem)]

theorem splitNewline_append {line : Str} (h : newline ∉ line) (rest : Str) :
    splitNewline (line ++ newline :: rest) = line :: splitNewline rest := by
  induction line with
  | nil => rw [List.nil_append, splitNewline, if_pos rfl]
  | cons c line ih =>
    have hc : c ≠ newline := fun hc => h (by rw [hc]; exact List.mem_cons_self ..)
    rw [List.cons_append, splitNewline, if_neg hc, ih fun hmem => h (List.mem_cons_of_mem _ hmem)]

theorem joinLines_ne_nil {line : Str} {lines : List Str} : joinLines (line :: lines) ≠ [] := by
  simp [joinLines]

theorem splitNewline_joinLines {line : Str} {lines : List Str}
    (h : ∀ l ∈ line :: lines, newline ∉ l) :
    splitNewline (joinLines (line :: lines)).dropLast = line :: lines := by
  induction lines generalizing line with
  | nil =>
    have hdrop : (joinLines [line]).dropLast = line := by
      simp [joinLines]
    rw [hdrop, splitNewline_line (h line (List.mem_cons_self ..))]
  | cons next lines ih =>
    have hjoin : joinLines (line :: next :: lines) =
        line ++ newline :: joinLines (next :: lines) := by
      simp [joinLines]
    rw [hjoin, List.dropLast_append_of_ne_nil (List.cons_ne_nil _ _),
      List.dropLast_cons_of_ne_nil joinLines_ne_nil,
      splitNewline_append (h line (List.mem_cons_self ..)),
      ih fun l hl => h l (List.mem_cons_of_mem _ hl)]

theorem getLast?_joinLines (line : Str) (lines : List Str) :
    (joinLines (line :: lines)).getLast? = some newline := by
  induction lines generalizing line with
  | nil => simp [joinLines]
  | cons next lines ih =>
    have hjoin : joinLines (line :: next :: lines) =
        line ++ newline :: joinLines (next :: lines) := by
      simp [joinLines]
    rw [hjoin, List.getLast?_append, List.getLast?_cons, ih]
    rfl

theorem joinLines_splitNewline (s : Str) : joinLines (splitNewline s) = s ++ [newline] := by
  induction s with
  | nil => rfl
  | cons c s ih =>
    rw [splitNewline]
    split
    · rename_i hc
      have hjoin : joinLines ([] :: splitNewline s) = newline :: joinLines (splitNewline s) := rfl
      rw [hjoin, ih, hc]
      rfl
    · split
      · rename_i hnone
        rw [hnone] at ih
        simp [joinLines] at ih
      · rename_i line lines hlines
        rw [hlines] at ih
        have hjoin : joinLines ((c :: line) :: lines) = c :: joinLines (line :: lines) := by
          simp [joinLines]
        rw [hjoin, ih]
        rfl

theorem newline_not_mem_clean {line : Str} (h : isCleanLine line = true) : newline ∉ line := by
  unfold isCleanLine hasControlChars at h
  simp only [Bool.and_eq_true, Bool.not_eq_true', List.any_eq_false] at h
  intro hmem
  have hcontrol := h.2 newline hmem
  exact hcontrol (by decide)

theorem newline_not_mem_natText (n : ℕ) : newline ∉ natText n := by
  intro hmem
  have hdigit := (isDigit_iff_range _).mp (isDigit_natText hmem)
  have hval : newline.val = 10 := rfl
  omega

theorem newline_not_mem_b64encode (bs : Bytes) : newline ∉ b64encode bs := by
  intro hmem
  have hvisible := (b64encode_visible bs _ hmem).1
  have hval : newline.val = 10 := rfl
  omega

theorem isSizeText_natText (n : ℕ) : isSizeText (natText n) = true := by
  unfold isSizeText
  rw [Bool.or_eq_true, Bool.and_eq_true, Bool.not_eq_true']
  by_cases hzero : n = 0
  · rw [hzero]
    exact .inl rfl
  · refine .inr ⟨?_, ?_⟩
    · unfold isdigit
      rw [Bool.and_eq_true, Bool.not_eq_true', List.isEmpty_eq_false_iff, List.all_eq_true]
      exact ⟨digits_ne_nil n, fun c hc => isdigitChar_of_isDigit (isDigit_natText hc)⟩
    · cases htext : natText n with
      | nil => exact absurd htext (digits_ne_nil n)
      | cons c rest =>
        have hhead : c ≠ cp '0' := by
          intro hc
          rw [hc] at htext
          exact hzero (natText_head htext)
        simp only [lit, List.map_cons, List.map_nil, List.isPrefixOf, Bool.and_true]
        exact beq_false_of_ne hhead.symm

theorem decimalText_iff_ascii {sizeLine : Str} {n : ℕ} (hsize : isSizeText sizeLine = true)
    (hn : intOfDigits sizeLine = .ok n) :
    decimalText n = .ok sizeLine ↔ ∀ c ∈ sizeLine, isDigit c = true := by
  constructor
  · intro htext c hc
    exact (isDigit_iff_range c).mpr ((decimalText_digits htext).2 c hc)
  · intro hascii
    have hshort : sizeLine.length ≤ maxStrDigits := by
      unfold intOfDigits at hn
      split at hn
      · cases hn
      · omega
    have hvalue := intOfDigits_ascii hascii hn
    have htext : natText n = sizeLine := by
      unfold isSizeText at hsize
      rw [Bool.or_eq_true, Bool.and_eq_true, Bool.not_eq_true'] at hsize
      rcases hsize with hzero | ⟨hdigits, hhead⟩
      · rw [beq_iff_eq] at hzero
        rw [hvalue, hzero]
        rfl
      · have hne : sizeLine ≠ [] := by
          unfold isdigit at hdigits
          rw [Bool.and_eq_true, Bool.not_eq_true', List.isEmpty_eq_false_iff] at hdigits
          exact hdigits.1
        have hfirst : sizeLine.head? ≠ some (cp '0') := by
          intro hfirst
          cases sizeLine with
          | nil => cases hfirst
          | cons c rest =>
            rw [Option.some.inj hfirst] at hhead
            simp [lit, List.isPrefixOf] at hhead
        rw [hvalue]
        exact (natText_digitsValue hascii hne hfirst).1
    rw [decimalText_ok_iff, htext]
    exact ⟨hshort, rfl⟩

theorem natText_short_iff (n : ℕ) : (natText n).length ≤ maxStrDigits ↔ n < 10 ^ maxStrDigits := by
  unfold natText
  rw [List.length_map]
  exact Nat.length_toDigits_le_iff (by decide) (by decide)

theorem noteText_ok_iff (c : Checkpoint) (t : Str) :
    c.noteText = .ok t ↔ c.treeSize < 10 ^ maxStrDigits ∧
      t = joinLines (c.origin :: natText c.treeSize :: b64encode c.rootHash.bytes ::
        c.extensionLines) := by
  rw [← natText_short_iff]
  unfold Checkpoint.noteText
  constructor
  · intro h
    obtain ⟨size, hsize, h⟩ := Pipeline.bind_ok h
    obtain ⟨hshort, rfl⟩ := (decimalText_ok_iff _ _).mp hsize
    exact ⟨hshort, (Except.ok.inj h).symm⟩
  · intro ⟨hshort, ht⟩
    rw [(decimalText_ok_iff _ _).mpr ⟨hshort, rfl⟩, ht]
    rfl

theorem parse_ok_iff (t : Str) (c : Checkpoint) :
    Checkpoint.parse t = .ok c ↔ t.getLast? = some newline ∧ ∃ sizeLine rootLine,
      splitNewline t.dropLast = c.origin :: sizeLine :: rootLine :: c.extensionLines ∧
      isSizeText sizeLine = true ∧ b64decode rootLine = some c.rootHash.bytes ∧
      intOfDigits sizeLine = .ok c.treeSize := by
  unfold Checkpoint.parse
  constructor
  · intro h
    split at h
    · cases h
    rename_i hlast
    refine ⟨not_not.mp hlast, ?_⟩
    split at h
    · rename_i origin sizeLine rootLine extensions hlines
      split at h
      · cases h
      rename_i hsize
      rw [Bool.not_eq_true', Bool.not_eq_false] at hsize
      cases hroot : b64decode rootLine with
      | none =>
        rw [hroot] at h
        cases h
      | some root =>
        rw [hroot] at h
        cases hint : intOfDigits sizeLine with
        | error e =>
          rw [hint] at h
          cases h
        | ok treeSize =>
          rw [hint] at h
          simp only [Checkpoint.make] at h
          split at h
          · split at h
            · split at h
              · rw [← Except.ok.inj h]
                exact ⟨sizeLine, rootLine, hlines, hsize, hroot, hint⟩
              · cases h
            · cases h
          · cases h
    · cases h
  · intro h
    obtain ⟨hlast, sizeLine, rootLine, hlines, hsize, hroot, hint⟩ := h
    rw [if_neg (not_not.mpr hlast), hlines]
    simp only [hsize, Bool.not_true, Bool.false_eq_true, if_false, hroot, hint, Checkpoint.make]
    rw [dif_pos c.origin_clean, dif_pos c.rootHash.length_eq, dif_pos c.extensions_clean]

theorem noteText_parses_iff (c : Checkpoint) :
    (∃ t, c.noteText = .ok t ∧ Checkpoint.parse t = .ok c) ↔ c.treeSize < 10 ^ maxStrDigits := by
  constructor
  · intro ⟨t, ht, _⟩
    exact ((noteText_ok_iff c t).mp ht).1
  · intro hsize
    refine ⟨_, (noteText_ok_iff c _).mpr ⟨hsize, rfl⟩, (parse_ok_iff _ _).mpr
      ⟨getLast?_joinLines _ _, natText c.treeSize, b64encode c.rootHash.bytes, ?_,
        isSizeText_natText _, b64decode_encode _,
        intOfDigits_natText ((natText_short_iff _).mpr hsize)⟩⟩
    apply splitNewline_joinLines
    simp only [List.forall_mem_cons]
    exact ⟨newline_not_mem_clean c.origin_clean, newline_not_mem_natText _,
      newline_not_mem_b64encode _,
      fun l hl => newline_not_mem_clean (List.all_eq_true.mp c.extensions_clean l hl)⟩

def HasPlainLines (t : Str) : Prop :=
  ∃ origin sizeLine rootLine extensions,
    splitNewline t.dropLast = origin :: sizeLine :: rootLine :: extensions ∧
    (∀ c ∈ sizeLine, isDigit c = true) ∧ spareBits rootLine = 0

theorem noteText_of_parse_iff {t : Str} {c : Checkpoint} (h : Checkpoint.parse t = .ok c) :
    c.noteText = .ok t ↔ HasPlainLines t := by
  obtain ⟨hlast, sizeLine, rootLine, hlines, hsize, hroot, hint⟩ := (parse_ok_iff t c).mp h
  have htext : t = joinLines (c.origin :: sizeLine :: rootLine :: c.extensionLines) := by
    rw [← hlines, joinLines_splitNewline]
    exact (List.dropLast_append_getLast? newline hlast).symm
  have hlength : c.rootHash.bytes.length % 3 = 2 := by rw [c.rootHash.length_eq]
  have hspare := (reads_of_decode hroot).encode_iff hlength
  constructor
  · intro hnote
    obtain ⟨hbound, hsame⟩ := (noteText_ok_iff c t).mp hnote
    have hback := (noteText_parses_iff c).mpr hbound
    obtain ⟨t', ht', hparse⟩ := hback
    obtain rfl := Except.ok.inj (hnote.symm.trans ht')
    have hclean : ∀ l ∈ c.origin :: natText c.treeSize :: b64encode c.rootHash.bytes ::
        c.extensionLines, newline ∉ l := by
      simp only [List.forall_mem_cons]
      exact ⟨newline_not_mem_clean c.origin_clean, newline_not_mem_natText _,
        newline_not_mem_b64encode _,
        fun l hl => newline_not_mem_clean (List.all_eq_true.mp c.extensions_clean l hl)⟩
    have hsplit := splitNewline_joinLines hclean
    rw [← hsame, hlines] at hsplit
    injection hsplit with _ hrest
    injection hrest with hsizeLine hrest
    injection hrest with hrootLine _
    refine ⟨_, sizeLine, rootLine, _, hlines, ?_, hspare.mp hrootLine.symm⟩
    intro d hd
    rw [hsizeLine] at hd
    exact isDigit_natText hd
  · intro hplain
    obtain ⟨origin, sizeLine', rootLine', extensions, hlines', hascii, hzero⟩ := hplain
    rw [hlines] at hlines'
    injection hlines' with _ hrest
    injection hrest with hsizeLine hrest
    injection hrest with hrootLine _
    subst hsizeLine hrootLine
    obtain ⟨hshort, hnat⟩ := (decimalText_ok_iff _ _).mp ((decimalText_iff_ascii hsize hint).mpr hascii)
    rw [noteText_ok_iff, ← natText_short_iff, ← hnat, hspare.mpr hzero]
    exact ⟨by rw [hnat]; exact hshort, htext⟩

theorem splitBlank_append {text : Str} (hlast : text.getLast? = some newline)
    (hnone : splitBlank text = none) (rest : Str) :
    splitBlank (text ++ newline :: rest) = some (text, rest) := by
  induction text with
  | nil => cases hlast
  | cons c text ih =>
    cases text with
    | nil =>
      obtain rfl := Option.some.inj hlast
      simp only [List.cons_append, List.nil_append]
      rw [splitBlank, if_pos ⟨rfl, rfl⟩]
    | cons d text =>
      rw [splitBlank] at hnone
      split at hnone
      · cases hnone
      · rename_i hblank
        rw [Option.map_eq_none_iff] at hnone
        rw [List.getLast?_cons_cons] at hlast
        simp only [List.cons_append] at ih ⊢
        rw [splitBlank, if_neg hblank, ih hlast hnone]
        rfl

theorem rsplitSpace_none {s : Str} (h : cp ' ' ∉ s) : rsplitSpace s = none := by
  induction s with
  | nil => rfl
  | cons c s ih =>
    have hc : c ≠ cp ' ' := fun hc => h (by rw [hc]; exact List.mem_cons_self ..)
    rw [rsplitSpace, ih fun hmem => h (List.mem_cons_of_mem _ hmem)]
    exact if_neg hc

theorem rsplitSpace_append (name : Str) {b64 : Str} (h : cp ' ' ∉ b64) :
    rsplitSpace (name ++ cp ' ' :: b64) = some (name, b64) := by
  induction name with
  | nil => rw [List.nil_append, rsplitSpace, rsplitSpace_none h]; rfl
  | cons c name ih => rw [List.cons_append, rsplitSpace, ih]

theorem space_not_mem_b64encode (bs : Bytes) : cp ' ' ∉ b64encode bs := by
  intro hmem
  have hvisible := (b64encode_visible bs _ hmem).1
  have hval : (cp ' ').val = 0x20 := rfl
  omega

def signatureLine (name : Str) (blob : Bytes) : Str :=
  sigLinePrefix ++ name ++ [cp ' '] ++ b64encode blob

theorem parseSignatureLine_signatureLine {name : Str} (hname : name ≠ []) (blob : Bytes) :
    parseSignatureLine (signatureLine name blob) = some (name, blob) := by
  have hline : signatureLine name blob = sigLinePrefix ++ (name ++ cp ' ' :: b64encode blob) := by
    simp [signatureLine]
  have hstarts : sigLinePrefix.isPrefixOf (signatureLine name blob) = true := by
    rw [hline, List.isPrefixOf_iff_prefix]
    exact List.prefix_append _ _
  unfold parseSignatureLine
  rw [hstarts, hline, List.drop_left, rsplitSpace_append name (space_not_mem_b64encode blob)]
  simp only [Bool.not_true, Bool.false_eq_true, if_false]
  rw [if_neg (by rw [List.isEmpty_iff]; exact hname), b64decode_encode]
  rfl

theorem newline_not_mem_signatureLine {name : Str} (hname : newline ∉ name) (blob : Bytes) :
    newline ∉ signatureLine name blob := by
  have hmark : newline ∉ sigLinePrefix := by decide
  have hspace : newline ∉ [cp ' '] := by decide
  unfold signatureLine
  simp only [List.mem_append, not_or]
  exact ⟨⟨⟨hmark, hname⟩, hspace⟩, newline_not_mem_b64encode blob⟩

theorem splitSignedNote_signed {text : Str} (hlast : text.getLast? = some newline)
    (hnone : splitBlank text = none) {name : Str} (hname : newline ∉ name) (blob : Bytes) :
    splitSignedNote (text ++ newline :: (signatureLine name blob ++ [newline])) =
      .ok (text, [signatureLine name blob]) := by
  have hline := newline_not_mem_signatureLine hname blob
  have hne : (signatureLine name blob).isEmpty = false := by
    rw [List.isEmpty_eq_false_iff]
    unfold signatureLine
    exact List.append_ne_nil_of_left_ne_nil (List.append_ne_nil_of_right_ne_nil _ (List.cons_ne_nil _ _)) _
  have hlines : (splitNewline (signatureLine name blob ++ [newline])).filter
      (fun line => !line.isEmpty) = [signatureLine name blob] := by
    rw [splitNewline_append hline]
    simp [splitNewline, hne]
  have hstarts : sigLinePrefix.isPrefixOf (signatureLine name blob) = true := by
    rw [List.isPrefixOf_iff_prefix]
    unfold signatureLine
    rw [List.append_assoc, List.append_assoc]
    exact List.prefix_append _ _
  unfold splitSignedNote
  rw [splitBlank_append hlast hnone]
  simp only [hlines]
  rw [if_neg (by simp), if_pos (by simp [hstarts])]

section Signed

variable {ed25519Verify : Bytes → Bytes → Bytes → Bool}

theorem ed25519KeyId_length {name : Str} {publicRaw keyId : Bytes}
    (h : ed25519KeyId name noteAlgEd25519 publicRaw = .ok keyId) : keyId.length = 4 := by
  obtain ⟨nameBytes, -, h⟩ := Pipeline.bind_ok h
  rw [← Except.ok.inj h, List.length_take, Digest.length_eq]
  rfl

theorem signNote_verifies {signer : NoteSigner} (hname : signer.name ≠ [] ∧ newline ∉ signer.name)
    (hkey : signer.publicRaw.length = 32)
    (hcorrect : ∀ message, ed25519Verify signer.publicRaw message (signer.sign message) = true)
    {text signed : Str} (h : signer.signNote text = .ok signed) :
    (∃ lines, splitSignedNote signed = .ok (text, lines)) ∧
      verifyNote ed25519Verify signed [⟨signer.name, signer.publicRaw, hkey⟩] = .ok [signer.name] := by
  unfold NoteSigner.signNote at h
  split at h
  · cases h
  rename_i hchecked
  rw [not_or, not_not, Bool.not_eq_true, Option.isSome_eq_false_iff, Option.isNone_iff_eq_none] at hchecked
  obtain ⟨hlast, hnone⟩ := hchecked
  obtain ⟨message, hmessage, h⟩ := Pipeline.bind_ok h
  obtain ⟨keyId, hkeyId, h⟩ := Pipeline.bind_ok h
  have hsigned : signed = text ++ newline ::
      (signatureLine signer.name (keyId ++ signer.sign message) ++ [newline]) := by
    rw [← Except.ok.inj h]
    simp [signatureLine]
  have hsplit := splitSignedNote_signed hlast hnone hname.2 (keyId ++ signer.sign message)
  rw [← hsigned] at hsplit
  refine ⟨⟨_, hsplit⟩, ?_⟩
  have hlength := ed25519KeyId_length hkeyId
  have hnamed : verifyNamed ed25519Verify message keyId (signer.sign message)
      [⟨signer.name, signer.publicRaw, hkey⟩] = .ok (some [signer.name]) := by
    unfold verifyNamed NoteVerifier.keyId
    simp only [hkeyId, ne_eq, not_true_eq_false, if_false, hcorrect, if_true, verifyNamed]
  have hlong : ¬ (keyId ++ signer.sign message).length < 4 := by
    rw [List.length_append]
    omega
  have htake : (keyId ++ signer.sign message).take 4 = keyId := by
    rw [← hlength]
    exact List.take_left
  have hdrop : (keyId ++ signer.sign message).drop 4 = signer.sign message := by
    rw [← hlength]
    exact List.drop_left
  have hlines : verifyLines ed25519Verify [⟨signer.name, signer.publicRaw, hkey⟩] message
      [signatureLine signer.name (keyId ++ signer.sign message)] = .ok (some [signer.name]) := by
    rw [verifyLines, parseSignatureLine_signatureLine hname.1]
    simp only [hlong, if_false, htake, hdrop, List.filter_cons, decide_true, if_true, List.filter_nil,
      hnamed, verifyLines, List.append_nil]
  unfold verifyNote
  rw [hsplit]
  simp only [hmessage, hlines]
  rfl

end Signed

/-- A checkpoint is read back from its text exactly when its size can be
written, and a text is the one of its checkpoint exactly when its lines are
plain; such texts are determined by their checkpoints. Signed notes are split
and verified. -/
theorem note_formats_canonical_iff (ed25519Verify : Bytes → Bytes → Bytes → Bool) :
    (∀ c : Checkpoint, (∃ t, c.noteText = .ok t ∧ Checkpoint.parse t = .ok c) ↔
      c.treeSize < 10 ^ maxStrDigits) ∧
    (∀ t c, Checkpoint.parse t = .ok c → (c.noteText = .ok t ↔ HasPlainLines t)) ∧
    (∀ t t' c, Checkpoint.parse t = .ok c → Checkpoint.parse t' = .ok c → HasPlainLines t →
      HasPlainLines t' → t = t') ∧
    (∀ (signer : NoteSigner) (hkey : signer.publicRaw.length = 32), signer.name ≠ [] → newline ∉ signer.name →
      (∀ message, ed25519Verify signer.publicRaw message (signer.sign message) = true) →
      ∀ text signed, signer.signNote text = .ok signed →
        (∃ lines, splitSignedNote signed = .ok (text, lines)) ∧
        verifyNote ed25519Verify signed [⟨signer.name, signer.publicRaw, hkey⟩] =
          .ok [signer.name]) := by
  refine ⟨noteText_parses_iff, fun t c => noteText_of_parse_iff, fun t t' c h h' hplain hplain' => ?_,
    fun signer hkey hname hline hcorrect text signed =>
      signNote_verifies ⟨hname, hline⟩ hkey hcorrect⟩
  have ht := (noteText_of_parse_iff h).mpr hplain
  have ht' := (noteText_of_parse_iff h').mpr hplain'
  exact Except.ok.inj (ht.symm.trans ht')

def zeroRootLine : Str := List.replicate 43 (cp 'A') ++ [cp '=']

def sampleNote (sizeLine rootLine : Str) : Str := joinLines [txt "tex/log", sizeLine, rootLine]

def texSigner : NoteSigner := ⟨txt "tex", List.replicate 32 0, id⟩

theorem note_formats_sample :
    (∃ c, Checkpoint.parse (sampleNote (txt "3") zeroRootLine) = .ok c ∧
      c.noteText = .ok (sampleNote (txt "3") zeroRootLine)) ∧
    ∃ signed, texSigner.signNote (sampleNote (txt "3") zeroRootLine) = .ok signed ∧
      verifyNote (fun _ message signature => message == signature) signed
        [⟨texSigner.name, texSigner.publicRaw, rfl⟩] = .ok [texSigner.name] := by
  obtain ⟨-, hcanonical, -, hsigned⟩ :=
    note_formats_canonical_iff fun _ message signature => message == signature
  constructor
  · have hread : ((Checkpoint.parse (sampleNote (txt "3") zeroRootLine)).map
        Checkpoint.treeSize) = .ok 3 := by
      decide
    cases hparse : Checkpoint.parse (sampleNote (txt "3") zeroRootLine) with
    | error e =>
      rw [hparse] at hread
      cases hread
    | ok c =>
      refine ⟨c, rfl, (hcanonical _ c hparse).mpr ?_⟩
      have hascii : (txt "3").all isDigit = true := by decide
      exact ⟨txt "tex/log", txt "3", zeroRootLine, [], by decide,
        List.all_eq_true.mp hascii, by decide⟩
  · have hsigns : (texSigner.signNote (sampleNote (txt "3") zeroRootLine)).isOk = true := by
      decide
    cases hsign : texSigner.signNote (sampleNote (txt "3") zeroRootLine) with
    | error e =>
      rw [hsign] at hsigns
      cases hsigns
    | ok signed =>
      exact ⟨signed, rfl, (hsigned texSigner rfl
        (by decide) (by decide) (fun message => beq_self_eq_true message) _ _ hsign).2⟩

/-- An Arabic-Indic digit, and a last digit with a spare bit. -/
theorem one_checkpoint_three_texts :
    ∃ c, Checkpoint.parse (sampleNote (txt "3") zeroRootLine) = .ok c ∧
      Checkpoint.parse (sampleNote (txt "٣") zeroRootLine) = .ok c ∧
      Checkpoint.parse (sampleNote (txt "3") (List.replicate 42 (cp 'A') ++ [cp 'B', cp '='])) =
        .ok c ∧
      c.noteText = .ok (sampleNote (txt "3") zeroRootLine) ∧
      sampleNote (txt "3") zeroRootLine ≠ sampleNote (txt "٣") zeroRootLine := by
  have hread : ((Checkpoint.parse (sampleNote (txt "3") zeroRootLine)).map
      Checkpoint.noteText) = .ok (.ok (sampleNote (txt "3") zeroRootLine)) := by
    decide
  have hdigit : Checkpoint.parse (sampleNote (txt "٣") zeroRootLine) =
      Checkpoint.parse (sampleNote (txt "3") zeroRootLine) := by
    decide
  have hspare : Checkpoint.parse (sampleNote (txt "3")
      (List.replicate 42 (cp 'A') ++ [cp 'B', cp '='])) =
      Checkpoint.parse (sampleNote (txt "3") zeroRootLine) := by
    decide
  cases hparse : Checkpoint.parse (sampleNote (txt "3") zeroRootLine) with
  | error e =>
    rw [hparse] at hread
    cases hread
  | ok c =>
    rw [hparse] at hread hdigit hspare
    have hdiffer : (sampleNote (txt "3") zeroRootLine).all (fun d => d.val < 0x80) ≠
        (sampleNote (txt "٣") zeroRootLine).all fun d => d.val < 0x80 := by
      decide
    exact ⟨c, rfl, hdigit, hspare, Except.ok.inj hread, fun heq => hdiffer (by rw [heq])⟩

end TexGovernance.Interchange
