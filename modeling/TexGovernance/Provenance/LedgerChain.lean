import TexGovernance.Lib.HashChain
import TexGovernance.Provenance.Ledger

/-!
# Tamper evidence of the sealed ledger

The replay accepts a list of records exactly when the list is a hash chain
over the JSON values of its payloads.
-/

namespace TexGovernance.Provenance
open PyStr PyBytes PyCodec PyDict PyJson Sha256 Pipeline HashChain

def textHash (text : Str) : Str := hex (sha256 (text.map fun c => byte c.val)).bytes

def linkJson (payloadSha256 : Str) (previousHash : Option Str) : Json :=
  .obj [(utf16 (txt "payload_sha256"), .str (utf16 payloadSha256)),
    (utf16 (txt "previous_hash"), match previousHash with
      | none => .null
      | some h => .str (utf16 h))]

def chainLink (previousHash : Option Str) (payload : Json) : Str :=
  textHash (render (linkJson (textHash (render payload)) previousHash))

theorem textHash_ascii (text : Str) : IsAscii (textHash text) := hex_ascii _

theorem sha256Hex_render (j : Json) : sha256Hex (render j) = .ok (textHash (render j)) := by
  unfold sha256Hex
  rw [utf8Encode_of_ascii (render_ascii j)]
  rfl

theorem toJson_linkPayload (payloadSha256 : Str) (previousHash : Option Str) :
    toJson (linkPayload payloadSha256 previousHash) = .ok (linkJson payloadSha256 previousHash) := by
  cases previousHash with
  | none => rfl
  | some h => rfl

theorem recordHashOf_eq (payloadSha256 : Str) (previousHash : Option Str) :
    recordHashOf payloadSha256 previousHash =
      .ok (textHash (render (linkJson payloadSha256 previousHash))) := by
  unfold recordHashOf stableJson dumps
  rw [toJson_linkPayload]
  exact sha256Hex_render _

theorem payloadSha256Of_eq {fact : SealedFact} {j : Json}
    (h : toJson fact.canonicalPayload = .ok j) :
    payloadSha256Of fact = .ok (textHash (render j)) := by
  unfold payloadSha256Of stableJson dumps
  rw [h]
  exact sha256Hex_render _

theorem payloadSha256Of_ok {fact : SealedFact} {digest : Str} (h : payloadSha256Of fact = .ok digest) :
    ∃ j, toJson fact.canonicalPayload = .ok j ∧ digest = textHash (render j) := by
  have htext := h
  unfold payloadSha256Of stableJson dumps at htext
  obtain ⟨text, htext, -⟩ := bind_ok htext
  obtain ⟨j, hj, -⟩ := bind_ok htext
  rw [payloadSha256Of_eq hj] at h
  exact ⟨j, hj, (Except.ok.inj h).symm⟩

structure Fits (previousHash : Option Str) (rec : SealedFactRecord) (payload : Json) : Prop where
  payload_eq : toJson rec.fact.canonicalPayload = .ok payload
  previous_eq : rec.previousHash = previousHash
  payloadSha256_eq : rec.payloadSha256 = textHash (render payload)
  recordHash_eq : rec.recordHash = chainLink previousHash payload

def Chained : Option Str → List SealedFactRecord → List Json → Prop
  | _, [], payloads => payloads = []
  | previousHash, rec :: rest, payloads =>
    ∃ payload others, payloads = payload :: others ∧ Fits previousHash rec payload ∧
      Chained (some rec.recordHash) rest others

variable {rec : SealedFactRecord} {previousHash : Option Str}

theorem verifyFrom_cons {payload : Json}
    (hpayload : toJson rec.fact.canonicalPayload = .ok payload) (idx : ℕ)
    (rest : List SealedFactRecord) :
    verifyFrom previousHash idx (rec :: rest) =
      if rec.previousHash ≠ previousHash ∨ rec.payloadSha256 ≠ textHash (render payload) ∨
          rec.recordHash ≠ chainLink previousHash payload then
        .ok ⟨false, idx, some idx⟩
      else verifyFrom (some rec.recordHash) (idx + 1) rest := by
  rw [verifyFrom, payloadSha256Of_eq hpayload]
  show (recordHashOf (textHash (render payload)) previousHash >>= _) = _
  rw [recordHashOf_eq]
  rfl

theorem verifyFrom_of_fits {payload : Json}
    (h : Fits previousHash rec payload) (idx : ℕ) (rest : List SealedFactRecord) :
    verifyFrom previousHash idx (rec :: rest) = verifyFrom (some rec.recordHash) (idx + 1) rest := by
  rw [verifyFrom_cons h.payload_eq, if_neg]
  rintro (hprevious | hsha | hhash)
  · exact hprevious h.previous_eq
  · exact hsha h.payloadSha256_eq
  · exact hhash h.recordHash_eq

variable {payloads : List Json} {records : List SealedFactRecord}

theorem verifyFrom_of_chained (h : Chained previousHash records payloads) (idx : ℕ) :
    verifyFrom previousHash idx records = .ok ⟨true, idx + records.length, none⟩ := by
  induction records generalizing previousHash payloads idx with
  | nil => rfl
  | cons rec rest ih =>
    obtain ⟨payload, others, -, hfits, hrest⟩ := h
    rw [verifyFrom_of_fits hfits, ih hrest, List.length_cons, Nat.add_right_comm, Nat.add_assoc]

theorem verifyFrom_cases (previousHash : Option Str) (records : List SealedFactRecord) (idx : ℕ)
    (hpayloads : ∀ rec ∈ records, ∃ j, toJson rec.fact.canonicalPayload = .ok j) :
    (∃ payloads, Chained previousHash records payloads) ∨
    ∃ i < idx + records.length, verifyFrom previousHash idx records = .ok ⟨false, i, some i⟩ := by
  induction records generalizing previousHash idx with
  | nil => exact .inl ⟨[], rfl⟩
  | cons rec rest ih =>
    obtain ⟨payload, hpayload⟩ := hpayloads rec (List.mem_cons_self ..)
    rw [verifyFrom_cons hpayload]
    by_cases hbreak : rec.previousHash ≠ previousHash ∨
        rec.payloadSha256 ≠ textHash (render payload) ∨ rec.recordHash ≠ chainLink previousHash payload
    · refine .inr ⟨idx, ?_, if_pos hbreak⟩
      rw [List.length_cons]
      omega
    · rw [if_neg hbreak]
      simp only [not_or, not_not] at hbreak
      have hfits : Fits previousHash rec payload :=
        ⟨hpayload, hbreak.1, hbreak.2.1, hbreak.2.2⟩
      rcases ih (some rec.recordHash) (idx + 1) fun r hr => hpayloads r (List.mem_cons_of_mem _ hr)
        with ⟨others, hothers⟩ | ⟨i, hi, hreport⟩
      · exact .inl ⟨payload :: others, payload, others, rfl, hfits, hothers⟩
      · refine .inr ⟨i, ?_, hreport⟩
        rw [List.length_cons]
        omega

theorem chained_of_verifyFrom {idx n : ℕ}
    (h : verifyFrom previousHash idx records = .ok ⟨true, n, none⟩) :
    ∃ payloads, Chained previousHash records payloads := by
  induction records generalizing previousHash idx with
  | nil => exact ⟨[], rfl⟩
  | cons rec rest ih =>
    have hpayload : ∃ j, toJson rec.fact.canonicalPayload = .ok j := by
      rw [verifyFrom] at h
      obtain ⟨digest, hdigest, -⟩ := bind_ok h
      obtain ⟨j, hj, -⟩ := payloadSha256Of_ok hdigest
      exact ⟨j, hj⟩
    obtain ⟨payload, hpayload⟩ := hpayload
    rw [verifyFrom_cons hpayload] at h
    split at h
    · cases h
    · rename_i hbreak
      simp only [not_or, not_not] at hbreak
      obtain ⟨others, hothers⟩ := ih h
      exact ⟨payload :: others, payload, others, rfl,
        ⟨hpayload, hbreak.1, hbreak.2.1, hbreak.2.2⟩, hothers⟩

def lastHash (start : Option Str) (records : List SealedFactRecord) : Option Str :=
  records.foldl (fun _ rec => some rec.recordHash) start

theorem lastHash_concat (start : Option Str) (records : List SealedFactRecord)
    (rec : SealedFactRecord) : lastHash start (records ++ [rec]) = some rec.recordHash := by
  unfold lastHash
  rw [List.foldl_append]
  rfl

theorem lastHash_eq (records : List SealedFactRecord) :
    lastHash none records = records.getLast?.map SealedFactRecord.recordHash := by
  cases records using List.reverseRecOn with
  | nil => rfl
  | append_singleton records rec =>
    rw [lastHash_concat, List.getLast?_concat]
    rfl

theorem tipFrom_of_chained (h : Chained previousHash records payloads) :
    tipFrom chainLink previousHash payloads = lastHash previousHash records := by
  induction records generalizing previousHash payloads with
  | nil =>
    have hnil : payloads = [] := h
    rw [hnil]
    rfl
  | cons rec rest ih =>
    obtain ⟨payload, others, rfl, hfits, hrest⟩ := h
    show tipFrom chainLink (some (chainLink previousHash payload)) others = _
    rw [← hfits.recordHash_eq]
    exact ih hrest

theorem chained_append {records more : List SealedFactRecord}
    {payloads others : List Json} (h : Chained previousHash records payloads)
    (hmore : Chained (lastHash previousHash records) more others) :
    Chained previousHash (records ++ more) (payloads ++ others) := by
  induction records generalizing previousHash payloads with
  | nil =>
    have hnil : payloads = [] := h
    rw [hnil]
    exact hmore
  | cons rec rest ih =>
    obtain ⟨payload, tail, rfl, hfits, hrest⟩ := h
    exact ⟨payload, tail ++ others, rfl, hfits, ih hrest hmore⟩

theorem chained_of_append {records more : List SealedFactRecord}
    (h : Chained previousHash (records ++ more) payloads) :
    ∃ payloads', Chained previousHash records payloads' := by
  induction records generalizing previousHash payloads with
  | nil => exact ⟨[], rfl⟩
  | cons rec rest ih =>
    obtain ⟨payload, tail, -, hfits, hrest⟩ := h
    obtain ⟨tail', htail'⟩ := ih hrest
    exact ⟨payload :: tail', payload, tail', rfl, hfits, htail'⟩

def payloadsOf (records : List SealedFactRecord) : List (Except PyErr Json) :=
  records.map fun rec => toJson rec.fact.canonicalPayload

theorem payloadsOf_chained (h : Chained previousHash records payloads) :
    payloadsOf records = payloads.map .ok := by
  induction records generalizing previousHash payloads with
  | nil =>
    have hnil : payloads = [] := h
    rw [hnil]
    rfl
  | cons rec rest ih =>
    obtain ⟨payload, others, rfl, hfits, hrest⟩ := h
    show toJson rec.fact.canonicalPayload :: payloadsOf rest = .ok payload :: others.map .ok
    rw [hfits.payload_eq, ih hrest]

def payloadInput (fact : SealedFact) : Except PyErr Bytes := do
  let text ← stableJson fact.canonicalPayload
  utf8Encode text

def linkInput (payloadSha256 : Str) (previousHash : Option Str) : Except PyErr Bytes := do
  let text ← stableJson (linkPayload payloadSha256 previousHash)
  utf8Encode text

def replayInputs : Option Str → List SealedFactRecord → List Bytes
  | _, [] => []
  | previousHash, rec :: rest =>
    match payloadInput rec.fact with
    | .error _ => []
    | .ok payload =>
      match linkInput (hex (sha256 payload).bytes) previousHash with
      | .error _ => [payload]
      | .ok link =>
        payload :: link ::
          if rec.previousHash ≠ previousHash ∨ rec.payloadSha256 ≠ hex (sha256 payload).bytes ∨
              rec.recordHash ≠ hex (sha256 link).bytes then []
          else replayInputs (some rec.recordHash) rest

def textBytes (text : Str) : Bytes := text.map fun c => byte c.val

def linkInputs (p : Option Str × Json) : List Bytes :=
  [textBytes (render p.2), textBytes (render (linkJson (textHash (render p.2)) p.1))]

theorem payloadInput_eq {fact : SealedFact} {j : Json} (h : toJson fact.canonicalPayload = .ok j) :
    payloadInput fact = .ok (textBytes (render j)) := by
  unfold payloadInput stableJson dumps
  rw [h]
  exact utf8Encode_of_ascii (render_ascii j)

theorem linkInput_eq (payloadSha256 : Str) (previousHash : Option Str) :
    linkInput payloadSha256 previousHash =
      .ok (textBytes (render (linkJson payloadSha256 previousHash))) := by
  unfold linkInput stableJson dumps
  rw [toJson_linkPayload]
  exact utf8Encode_of_ascii (render_ascii _)

theorem replayInputs_of_chained (h : Chained previousHash records payloads) :
    replayInputs previousHash records = (linksFrom chainLink previousHash payloads).flatMap linkInputs := by
  induction records generalizing previousHash payloads with
  | nil =>
    have hnil : payloads = [] := h
    rw [hnil]
    rfl
  | cons rec rest ih =>
    obtain ⟨payload, others, rfl, hfits, hrest⟩ := h
    have hkeep : ¬ (rec.previousHash ≠ previousHash ∨
        rec.payloadSha256 ≠ hex (sha256 (textBytes (render payload))).bytes ∨
        rec.recordHash ≠ hex (sha256 (textBytes (render (linkJson
          (hex (sha256 (textBytes (render payload))).bytes) previousHash)))).bytes) := by
      rintro (hprevious | hsha | hhash)
      · exact hprevious hfits.previous_eq
      · exact hsha hfits.payloadSha256_eq
      · exact hhash hfits.recordHash_eq
    simp only [replayInputs, payloadInput_eq hfits.payload_eq, linkInput_eq]
    rw [if_neg hkeep, ih hrest, hfits.recordHash_eq]
    rfl

theorem textHash_inj {S : Set Bytes} (hS : Set.InjOn sha256 S) {s t : Str} (hs : IsAscii s)
    (ht : IsAscii t) (hsS : textBytes s ∈ S) (htS : textBytes t ∈ S)
    (h : textHash s = textHash t) : s = t := by
  have hdigest : sha256 (textBytes s) = sha256 (textBytes t) :=
    Digest.ext_bytes _ _ (hex_inj _ _ h)
  have hbytes : textBytes s = textBytes t := hS hsS htS hdigest
  apply utf8Encode_inj s t (textBytes s) (utf8Encode_of_ascii hs)
  rw [hbytes]
  exact utf8Encode_of_ascii ht

theorem linkJson_inj {sha sha' : Str} {previous previous' : Option Str} (hsha : IsAscii sha)
    (hsha' : IsAscii sha') (hprevious : ∀ h, previous = some h → IsAscii h)
    (hprevious' : ∀ h, previous' = some h → IsAscii h)
    (h : linkJson sha previous = linkJson sha' previous') : sha = sha' ∧ previous = previous' := by
  unfold linkJson at h
  obtain ⟨hfirst, hrest⟩ := List.cons.inj (Json.obj.inj h)
  have hdigest : utf16 sha = utf16 sha' := Json.str.inj (Prod.mk.inj hfirst).2
  have hlink := (Prod.mk.inj (List.cons.inj hrest).1).2
  refine ⟨utf16_inj_of_ascii hsha hsha' hdigest, ?_⟩
  cases previous with
  | none =>
    cases previous' with
    | none => rfl
    | some d' => cases hlink
  | some d =>
    cases previous' with
    | none => cases hlink
    | some d' =>
      rw [utf16_inj_of_ascii (hprevious d rfl) (hprevious' d' rfl) (Json.str.inj hlink)]

theorem chainLink_injOn {S : Set Bytes} (hS : Set.InjOn sha256 S) {P : Set (Option Str × Json)}
    (hinputs : ∀ p ∈ P, ∀ b ∈ linkInputs p, b ∈ S)
    (hprevious : ∀ p ∈ P, ∀ h, p.1 = some h → IsAscii h) :
    Set.InjOn (fun p : Option Str × Json => chainLink p.1 p.2) P := by
  intro p hp q hq hpq
  have hlink := textHash_inj hS (render_ascii _) (render_ascii _)
    (hinputs p hp _ (List.mem_cons_of_mem _ (List.mem_cons_self ..)))
    (hinputs q hq _ (List.mem_cons_of_mem _ (List.mem_cons_self ..))) hpq
  obtain ⟨hsha, hprev⟩ := linkJson_inj (textHash_ascii _) (textHash_ascii _) (hprevious p hp)
    (hprevious q hq) (render_inj hlink)
  have hpayload := textHash_inj hS (render_ascii _) (render_ascii _)
    (hinputs p hp _ (List.mem_cons_self ..)) (hinputs q hq _ (List.mem_cons_self ..)) hsha
  exact Prod.ext hprev (render_inj hpayload)

def Intact (records : List SealedFactRecord) : Prop :=
  ∃ checked, verifyChain records = .ok ⟨true, checked, none⟩

def inputsOf (A B : List SealedFactRecord) : Set Bytes :=
  {x | x ∈ replayInputs none A ∨ x ∈ replayInputs none B}

theorem intact_iff_chained (records : List SealedFactRecord) :
    Intact records ↔ ∃ payloads, Chained none records payloads := by
  constructor
  · rintro ⟨checked, h⟩
    exact chained_of_verifyFrom h
  · rintro ⟨payloads, h⟩
    exact ⟨_, verifyFrom_of_chained h 0⟩

theorem payloads_determined {A B : List SealedFactRecord}
    (hinj : Set.InjOn sha256 (inputsOf A B)) (hA : Intact A) (hB : Intact B)
    (hlast : A.getLast?.map SealedFactRecord.recordHash =
      B.getLast?.map SealedFactRecord.recordHash) :
    payloadsOf A = payloadsOf B := by
  obtain ⟨as, has⟩ := (intact_iff_chained A).mp hA
  obtain ⟨bs, hbs⟩ := (intact_iff_chained B).mp hB
  have htip : tip chainLink as = tip chainLink bs := by
    unfold tip
    rw [tipFrom_of_chained has, tipFrom_of_chained hbs, lastHash_eq, lastHash_eq, hlast]
  have hlinks : Set.InjOn (fun p : Option Str × Json => chainLink p.1 p.2)
      {p | p ∈ links chainLink as ∨ p ∈ links chainLink bs} := by
    refine chainLink_injOn hinj ?_ ?_
    · rintro p (hp | hp) b hb
      · left
        rw [replayInputs_of_chained has]
        exact List.mem_flatMap.mpr ⟨p, hp, hb⟩
      · right
        rw [replayInputs_of_chained hbs]
        exact List.mem_flatMap.mpr ⟨p, hp, hb⟩
    · rintro p (hp | hp) h hh
      · obtain ⟨q, rfl⟩ := previous_is_link chainLink as hp hh
        exact textHash_ascii _
      · obtain ⟨q, rfl⟩ := previous_is_link chainLink bs hp hh
        exact textHash_ascii _
  rw [payloadsOf_chained has, payloadsOf_chained hbs, tip_inj chainLink as bs hlinks htip]

theorem reports_break (hbroken : ¬ Intact records)
    (hpayloads : ∀ rec ∈ records, ∃ j, toJson rec.fact.canonicalPayload = .ok j) :
    ∃ i < records.length, verifyChain records = .ok ⟨false, i, some i⟩ := by
  rcases verifyFrom_cases none records 0 hpayloads with hchained | ⟨i, hi, hreport⟩
  · exact absurd ((intact_iff_chained records).mpr hchained) hbroken
  · refine ⟨i, ?_, hreport⟩
    rw [Nat.zero_add] at hi
    exact hi

theorem intact_payloads (h : Intact records) :
    ∀ rec ∈ records, ∃ j, toJson rec.fact.canonicalPayload = .ok j := by
  obtain ⟨payloads, hchained⟩ := (intact_iff_chained records).mp h
  intro rec hrec
  have hmem : toJson rec.fact.canonicalPayload ∈ payloadsOf records :=
    List.mem_map.mpr ⟨rec, hrec, rfl⟩
  rw [payloadsOf_chained hchained] at hmem
  obtain ⟨j, -, hj⟩ := List.mem_map.mp hmem
  exact ⟨j, hj.symm⟩

theorem intact_of_append {records more : List SealedFactRecord} (h : Intact (records ++ more)) :
    Intact records := by
  obtain ⟨payloads, hchained⟩ := (intact_iff_chained _).mp h
  exact (intact_iff_chained records).mpr (chained_of_append hchained)

inductive Tampering : List SealedFactRecord → List SealedFactRecord → Prop where
  | delete (pre : List SealedFactRecord) (rec : SealedFactRecord) (post : List SealedFactRecord)
      (notLast : post ≠ []) : Tampering (pre ++ rec :: post) (pre ++ post)
  | swap (pre : List SealedFactRecord) (a b : SealedFactRecord) (post : List SealedFactRecord)
      (differ : toJson a.fact.canonicalPayload ≠ toJson b.fact.canonicalPayload) :
      Tampering (pre ++ a :: b :: post) (pre ++ b :: a :: post)
  | change (pre : List SealedFactRecord) (rec : SealedFactRecord) (post : List SealedFactRecord)
      (fact : SealedFact) (payload : Json) (hasJson : toJson fact.canonicalPayload = .ok payload)
      (differs : toJson rec.fact.canonicalPayload ≠ .ok payload) :
      Tampering (pre ++ rec :: post) (pre ++ { rec with fact := fact } :: post)

theorem replayInputs_append (previousHash : Option Str) (records more : List SealedFactRecord) :
    replayInputs previousHash records ⊆ replayInputs previousHash (records ++ more) := by
  induction records generalizing previousHash with
  | nil => exact List.nil_subset _
  | cons rec rest ih =>
    intro x hx
    rw [List.cons_append]
    unfold replayInputs at hx ⊢
    split
    · rename_i heq
      rw [heq] at hx
      exact hx
    · rename_i payload heq
      rw [heq] at hx
      simp only at hx
      split
      · rename_i heq'
        rw [heq'] at hx
        exact hx
      · rename_i link heq'
        rw [heq'] at hx
        simp only [List.mem_cons] at hx ⊢
        split_ifs at hx ⊢ with hbreak
        · exact hx
        · exact hx.imp_right fun h => h.imp_right fun h => ih _ h

variable {post : List SealedFactRecord}

theorem getLast?_behind (pre : List SealedFactRecord) (h : post ≠ []) :
    (pre ++ post).getLast? = post.getLast? := by
  rw [List.getLast?_append_of_ne_nil _ h]

theorem delete_not_intact {pre : List SealedFactRecord} (hpost : post ≠ [])
    (hinj : Set.InjOn sha256 (inputsOf (pre ++ rec :: post) (pre ++ post)))
    (h : Intact (pre ++ rec :: post)) : ¬ Intact (pre ++ post) := by
  intro hdeleted
  have hlast : (pre ++ rec :: post).getLast?.map SealedFactRecord.recordHash =
      (pre ++ post).getLast?.map SealedFactRecord.recordHash := by
    rw [getLast?_behind pre hpost, getLast?_behind pre (List.cons_ne_nil rec post),
      List.getLast?_cons_of_ne_nil hpost]
  have hlength := congrArg List.length (payloads_determined hinj h hdeleted hlast)
  simp [payloadsOf] at hlength

theorem swap_not_intact {pre : List SealedFactRecord} {a b : SealedFactRecord}
    (hdiffer : toJson a.fact.canonicalPayload ≠ toJson b.fact.canonicalPayload)
    (hinj : Set.InjOn sha256 (inputsOf (pre ++ a :: b :: post) (pre ++ b :: a :: post)))
    (h : Intact (pre ++ a :: b :: post)) : ¬ Intact (pre ++ b :: a :: post) := by
  intro hswapped
  by_cases hpost : post = []
  · -- the list up to `a` and the swapped list end with the same hash
    subst hpost
    have hsplit : pre ++ [a, b] = (pre ++ [a]) ++ [b] := by simp
    have hprefix : Intact (pre ++ [a]) := by
      rw [hsplit] at h
      exact intact_of_append h
    have hinputs : inputsOf (pre ++ [a]) (pre ++ [b, a]) ⊆ inputsOf (pre ++ [a, b]) (pre ++ [b, a]) := by
      rintro x (hx | hx)
      · left
        rw [hsplit]
        exact replayInputs_append none _ _ hx
      · exact .inr hx
    have hlast : (pre ++ [a]).getLast?.map SealedFactRecord.recordHash =
        (pre ++ [b, a]).getLast?.map SealedFactRecord.recordHash := by
      rw [getLast?_behind pre (List.cons_ne_nil _ _), getLast?_behind pre (List.cons_ne_nil _ _)]
      rfl
    have hlength := congrArg List.length
      (payloads_determined (hinj.mono hinputs) hprefix hswapped hlast)
    simp [payloadsOf] at hlength
  · have hlast : (pre ++ a :: b :: post).getLast?.map SealedFactRecord.recordHash =
        (pre ++ b :: a :: post).getLast?.map SealedFactRecord.recordHash := by
      rw [getLast?_behind pre (List.cons_ne_nil _ _), getLast?_behind pre (List.cons_ne_nil _ _),
        List.getLast?_cons_of_ne_nil (List.cons_ne_nil _ _), List.getLast?_cons_of_ne_nil hpost,
        List.getLast?_cons_of_ne_nil (List.cons_ne_nil _ _), List.getLast?_cons_of_ne_nil hpost]
    have hpayloads := payloads_determined hinj h hswapped hlast
    unfold payloadsOf at hpayloads
    rw [List.map_append, List.map_append] at hpayloads
    exact hdiffer (List.cons.inj (List.append_cancel_left hpayloads)).1

theorem change_not_intact {pre : List SealedFactRecord} {fact : SealedFact} {payload : Json}
    (hjson : toJson fact.canonicalPayload = .ok payload)
    (hdiffers : toJson rec.fact.canonicalPayload ≠ .ok payload)
    (hinj : Set.InjOn sha256
      (inputsOf (pre ++ rec :: post) (pre ++ { rec with fact := fact } :: post)))
    (h : Intact (pre ++ rec :: post)) : ¬ Intact (pre ++ { rec with fact := fact } :: post) := by
  intro hchanged
  have hlast : (pre ++ rec :: post).getLast?.map SealedFactRecord.recordHash =
      (pre ++ { rec with fact := fact } :: post).getLast?.map SealedFactRecord.recordHash := by
    rw [getLast?_behind pre (List.cons_ne_nil _ _), getLast?_behind pre (List.cons_ne_nil _ _)]
    cases post with
    | nil => rfl
    | cons r rs => rfl
  have hpayloads := payloads_determined hinj h hchanged hlast
  unfold payloadsOf at hpayloads
  rw [List.map_append, List.map_append] at hpayloads
  have hhead := (List.cons.inj (List.append_cancel_left hpayloads)).1
  exact hdiffers (hhead.trans hjson)

theorem tampering_not_intact {A A' : List SealedFactRecord} (htampered : Tampering A A')
    (hinj : Set.InjOn sha256 (inputsOf A A')) (h : Intact A) : ¬ Intact A' := by
  cases htampered with
  | delete pre rec post notLast => exact delete_not_intact notLast hinj h
  | swap pre a b post differ => exact swap_not_intact differ hinj h
  | change pre rec post fact payload hasJson differs =>
    exact change_not_intact hasJson differs hinj h

theorem tampering_payloads {A A' : List SealedFactRecord} (htampered : Tampering A A')
    (h : Intact A) : ∀ rec ∈ A', ∃ j, toJson rec.fact.canonicalPayload = .ok j := by
  have hpayloads := intact_payloads h
  intro r hr
  cases htampered with
  | delete pre rec post notLast =>
    apply hpayloads r
    rw [List.mem_append, List.mem_cons]
    rcases List.mem_append.mp hr with hr | hr
    · exact .inl hr
    · exact .inr (.inr hr)
  | swap pre a b post differ =>
    apply hpayloads r
    simp only [List.mem_append, List.mem_cons] at hr ⊢
    rcases hr with hr | hr | hr | hr
    · exact .inl hr
    · exact .inr (.inr (.inl hr))
    · exact .inr (.inl hr)
    · exact .inr (.inr (.inr hr))
  | change pre rec post fact payload hasJson differs =>
    simp only [List.mem_append, List.mem_cons] at hr
    rcases hr with hr | rfl | hr
    · exact hpayloads r (List.mem_append_left _ hr)
    · exact ⟨payload, hasJson⟩
    · exact hpayloads r (List.mem_append_right _ (List.mem_cons_of_mem _ hr))

section Write

variable {sign : Str → Except PyErr Str}

theorem appendLocked_spec {l l' : SealedFactLedger} {fact : SealedFact} {rec : SealedFactRecord}
    (h : appendLocked sign l fact = .ok (rec, l')) :
    l' = { l with entries := l.entries ++ [rec] } ∧ rec.fact = fact ∧
      rec.sequence = l.entries.length ∧ ∃ payload, Fits (lastHash none l.entries) rec payload := by
  unfold appendLocked at h
  obtain ⟨sha, hsha, h⟩ := bind_ok h
  obtain ⟨hash, hhash, h⟩ := bind_ok h
  obtain ⟨signature, -, h⟩ := bind_ok h
  obtain ⟨payload, hpayload, hshaEq⟩ := payloadSha256Of_ok hsha
  rw [recordHashOf_eq, hshaEq, ← lastHash_eq] at hhash
  obtain ⟨hrec, hl'⟩ := Prod.mk.inj (Except.ok.inj h)
  rw [← hl', ← hrec]
  exact ⟨rfl, rfl, rfl, payload, hpayload, (lastHash_eq l.entries).symm, hshaEq,
    (Except.ok.inj hhash).symm⟩

theorem appendSequenced_spec {l l' : SealedFactLedger} {fact : SealedFact} {key : Str}
    {claimed : Option ℤ} {rec : SealedFactRecord}
    (h : appendSequenced sign l fact key claimed = .ok (rec, l')) :
    let seq := claimed.getD ((l.byIdentity.get? key).getD []).length
    appendLocked sign l (sequencedFact fact key seq) =
        .ok (rec, { l with entries := l.entries ++ [rec] }) ∧
      l' = ⟨l.entries ++ [rec],
        l.byIdentity.set key ((l.byIdentity.get? key).getD [] ++ [rec.sequence])⟩ := by
  unfold appendSequenced at h
  obtain ⟨⟨rec', l₁⟩, happend, h⟩ := bind_ok h
  obtain ⟨hrec, hl'⟩ := Prod.mk.inj (Except.ok.inj h)
  subst hrec
  obtain ⟨hl₁, -⟩ := appendLocked_spec happend
  rw [hl₁] at happend hl'
  exact ⟨happend, hl'.symm⟩

theorem applyCall_fits {l l' : SealedFactLedger} {c : AppendCall} {rec : SealedFactRecord}
    (h : applyCall sign l c = .ok (rec, l')) :
    l'.entries = l.entries ++ [rec] ∧ ∃ payload, Fits (lastHash none l.entries) rec payload := by
  cases c with
  | append fact =>
    obtain ⟨hl', -, -, hfits⟩ := appendLocked_spec h
    exact ⟨by rw [hl'], hfits⟩
  | appendSequenced fact key claimed =>
    obtain ⟨happend, hl'⟩ := appendSequenced_spec h
    obtain ⟨-, -, -, hfits⟩ := appendLocked_spec happend
    exact ⟨by rw [hl'], hfits⟩

theorem runCalls_chained (l : SealedFactLedger) (calls : List AppendCall) {payloads : List Json}
    (h : Chained none l.entries payloads) :
    (∃ payloads', Chained none (runCalls sign l calls).entries payloads') ∧
      (runCalls sign l calls).entries.length =
        l.entries.length + (outcomes sign l calls).countP Except.isOk := by
  induction calls generalizing l payloads with
  | nil => exact ⟨⟨payloads, h⟩, rfl⟩
  | cons c calls ih =>
    have hrun : runCalls sign l (c :: calls) = runCalls sign (stepCall sign l c) calls := rfl
    have houtcomes : outcomes sign l (c :: calls) =
        (applyCall sign l c).map Prod.fst :: outcomes sign (stepCall sign l c) calls := rfl
    rw [hrun, houtcomes]
    cases hcall : applyCall sign l c with
    | error e =>
      have hstep : stepCall sign l c = l := by
        unfold stepCall
        rw [hcall]
      rw [hstep]
      exact ih l h
    | ok result =>
      obtain ⟨rec, l'⟩ := result
      have hstep : stepCall sign l c = l' := by
        unfold stepCall
        rw [hcall]
      obtain ⟨hentries, payload, hfits⟩ := applyCall_fits hcall
      have hchained : Chained none l'.entries (payloads ++ [payload]) := by
        rw [hentries]
        exact chained_append h ⟨payload, [], rfl, hfits, rfl⟩
      obtain ⟨hwhole, hlength⟩ := ih l' hchained
      rw [hstep]
      refine ⟨hwhole, ?_⟩
      rw [hlength, hentries, List.length_append, List.countP_cons_of_pos rfl]
      simp only [List.length_singleton]
      omega

end Write

/-- A run of appends is intact, the last hash of an intact list determines the
JSON values of its payloads, and tampering shows. -/
theorem sealed_ledger_tamper_evident (sign : Str → Except PyErr Str) :
    (∀ calls : List AppendCall,
      verifyChain (runCalls sign SealedFactLedger.fresh calls).entries =
        .ok ⟨true, (outcomes sign SealedFactLedger.fresh calls).countP Except.isOk, none⟩) ∧
    (∀ A B : List SealedFactRecord, Set.InjOn sha256 (inputsOf A B) → Intact A → Intact B →
      A.getLast?.map SealedFactRecord.recordHash = B.getLast?.map SealedFactRecord.recordHash →
      payloadsOf A = payloadsOf B) ∧
    (∀ A A' : List SealedFactRecord, Tampering A A' → Set.InjOn sha256 (inputsOf A A') →
      Intact A → ∃ i < A'.length, verifyChain A' = .ok ⟨false, i, some i⟩) := by
  refine ⟨?_, ?_, ?_⟩
  · intro calls
    have hfresh : Chained none SealedFactLedger.fresh.entries [] := rfl
    obtain ⟨⟨payloads, hchained⟩, hlength⟩ := @runCalls_chained sign _ calls [] hfresh
    unfold verifyChain
    rw [verifyFrom_of_chained hchained, hlength]
    simp [SealedFactLedger.fresh]
  · intro A B hinj hA hB hlast
    exact payloads_determined hinj hA hB hlast
  · intro A A' htampered hinj hA
    exact reports_break (tampering_not_intact htampered hinj hA) (tampering_payloads htampered hA)

def sampleFact (value : PyObj) : SealedFact where
  factId := txt "5f0c1b1e-0000-4000-8000-000000000001"
  kind := .enforcement
  subjectId := none
  claim := txt "blocked"
  evidence := none
  maturity := .production
  detail := Dict.empty.set (txt "tool") value
  createdAt := txt "2025-01-01T00:00:00+00:00"

def sampleRecord (value : PyObj) (payload : Json) : SealedFactRecord :=
  ⟨0, sampleFact value, textHash (render payload), none, chainLink none payload, []⟩

theorem sampleRecord_chained {value : PyObj} {payload : Json}
    (h : toJson (sampleFact value).canonicalPayload = .ok payload) :
    Chained none [sampleRecord value payload] [payload] :=
  ⟨payload, [], rfl, ⟨h, rfl, rfl, rfl⟩, rfl⟩

def samplePath : Str := txt "/bin/rm"

set_option maxRecDepth 2000 in
/-- A path object and the text of the path are different values with the same
JSON text. -/
theorem equal_text_payloads_differ :
    ∃ A B : List SealedFactRecord, Set.InjOn sha256 (inputsOf A B) ∧ Intact A ∧ Intact B ∧
      A.length = B.length ∧
      A.getLast?.map SealedFactRecord.recordHash = B.getLast?.map SealedFactRecord.recordHash ∧
      A.map (fun r => r.fact.canonicalPayload) ≠ B.map (fun r => r.fact.canonicalPayload) := by
  obtain ⟨payload, hstr⟩ : ∃ payload,
      toJson (sampleFact (.str samplePath)).canonicalPayload = .ok payload := ⟨_, rfl⟩
  have hother : toJson (sampleFact (.other samplePath)).canonicalPayload = .ok payload := hstr
  have hA := sampleRecord_chained hother
  have hB := sampleRecord_chained hstr
  have hnodup : (((toJson (sampleFact (.str samplePath)).canonicalPayload).toOption.elim []
      fun j => linkInputs (none, j)).map sha256).Nodup := by
    decide
  rw [hstr] at hnodup
  refine ⟨[sampleRecord (.other samplePath) payload], [sampleRecord (.str samplePath) payload], ?_,
    (intact_iff_chained _).mpr ⟨_, hA⟩, (intact_iff_chained _).mpr ⟨_, hB⟩, rfl, rfl, ?_⟩
  · unfold inputsOf
    rw [replayInputs_of_chained hA, replayInputs_of_chained hB]
    simp only [or_self]
    exact injOn_of_nodup _ hnodup
  · intro h
    have hpayload := (List.cons.inj h).1
    unfold SealedFact.canonicalPayload at hpayload
    simp [sampleRecord, sampleFact, Dict.set, Dict.empty, Dict.keys] at hpayload

end TexGovernance.Provenance
