import TexGovernance.Lib.PyBytes

/-!
# Strict base64, read and written

What was encoded is decoded.
-/

namespace PyCodec
open PyStr PyBytes

attribute [local simp] b64encode base64Loop

theorem base64Digit_spec : ∀ n < 64, base64Value? (base64Digit n) = some n ∧
    0x20 < (base64Digit n).val ∧ (base64Digit n).val < 0x7f := by
  decide

theorem base64Value?_spec {c : CodePoint} {v : ℕ} (h : base64Value? c = some v) :
    v < 64 ∧ base64Digit v = c ∧ c.val ≠ 0x3d := by
  have hdigits : ∀ k < 128, ∀ v, base64Value? (Fin.ofNat 0x110000 k) = some v →
      v < 64 ∧ base64Digit v = Fin.ofNat 0x110000 k ∧ k ≠ 0x3d := by
    decide
  have hascii : c.val < 128 := by
    unfold base64Value? at h
    split at h
    · omega
    split at h
    · omega
    split at h
    · omega
    split at h
    · omega
    split at h
    · omega
    cases h
  have hc : Fin.ofNat 0x110000 c.val = c := Fin.ext (Nat.mod_eq_of_lt c.isLt)
  have hspec := hdigits c.val hascii v (by rw [hc]; exact h)
  rw [hc] at hspec
  exact hspec

section Steps

variable {c : CodePoint} {v : ℕ} (h : base64Value? c = some v) (rest : Str) (left pads : ℕ)
variable (out : Bytes)
include h

theorem base64Loop_first :
    base64Loop (c :: rest) 0 left pads false out = base64Loop rest 1 v 0 false out := by
  rw [base64Loop, if_neg (base64Value?_spec h).2.2, h]
  rfl

theorem base64Loop_second :
    base64Loop (c :: rest) 1 left pads false out =
      base64Loop rest 2 (v % 16) 0 false (out ++ [byte (left * 4 + v / 16)]) := by
  rw [base64Loop, if_neg (base64Value?_spec h).2.2, h]
  rfl

theorem base64Loop_third :
    base64Loop (c :: rest) 2 left pads false out =
      base64Loop rest 3 (v % 4) 0 false (out ++ [byte (left * 16 + v / 4)]) := by
  rw [base64Loop, if_neg (base64Value?_spec h).2.2, h]
  rfl

theorem base64Loop_fourth :
    base64Loop (c :: rest) 3 left pads false out =
      base64Loop rest 0 0 0 false (out ++ [byte (left * 64 + v)]) := by
  rw [base64Loop, if_neg (base64Value?_spec h).2.2, h]
  rfl

end Steps

theorem value_digit {n : ℕ} (h : n < 64) : base64Value? (base64Digit n) = some n :=
  (base64Digit_spec n h).1

theorem base64Loop_encode (bs out : Bytes) (left : ℕ) :
    base64Loop (b64encode bs) 0 left 0 false out = some (out ++ bs) := by
  induction bs using b64encode.induct generalizing out left with
  | case1 => simp
  | case2 a =>
    have ha := a.isLt
    have hfirst : byte (a.val / 4 * 4 + a.val % 4 * 16 / 16) = a := byte_of_val (by omega)
    rw [b64encode, base64Loop_first (value_digit (by omega)),
      base64Loop_second (value_digit (by omega)), hfirst]
    rfl
  | case3 a b =>
    have ha := a.isLt
    have hb := b.isLt
    have hfirst : byte (a.val / 4 * 4 + (a.val % 4 * 16 + b.val / 16) / 16) = a := byte_of_val (by omega)
    have hsecond : byte ((a.val % 4 * 16 + b.val / 16) % 16 * 16 + b.val % 16 * 4 / 4) = b :=
      byte_of_val (by omega)
    rw [b64encode, base64Loop_first (value_digit (by omega)),
      base64Loop_second (value_digit (by omega)), base64Loop_third (value_digit (by omega)), hfirst,
      hsecond, List.append_assoc]
    rfl
  | case4 a b c rest ih =>
    have ha := a.isLt
    have hb := b.isLt
    have hc := c.isLt
    have hfirst : byte (a.val / 4 * 4 + (a.val % 4 * 16 + b.val / 16) / 16) = a := byte_of_val (by omega)
    have hsecond : byte ((a.val % 4 * 16 + b.val / 16) % 16 * 16 +
        (b.val % 16 * 4 + c.val / 64) / 4) = b := byte_of_val (by omega)
    have hthird : byte ((b.val % 16 * 4 + c.val / 64) % 4 * 64 + c.val % 64) = c := byte_of_val (by omega)
    rw [b64encode, base64Loop_first (value_digit (by omega)),
      base64Loop_second (value_digit (by omega)), base64Loop_third (value_digit (by omega)),
      base64Loop_fourth (value_digit (by omega)), hfirst, hsecond, hthird, ih]
    simp

theorem b64decode_encode (bs : Bytes) : b64decode (b64encode bs) = some bs := by
  have hloop := base64Loop_encode bs [] 0
  cases bs with
  | nil => rfl
  | cons a bs =>
    have ha := a.isLt
    have hhead : ∃ rest, b64encode (a :: bs) = base64Digit (a.val / 4) :: rest := by
      match bs with
      | [] => exact ⟨_, rfl⟩
      | [_] => exact ⟨_, rfl⟩
      | _ :: _ :: _ => exact ⟨_, rfl⟩
    obtain ⟨rest, hrest⟩ := hhead
    rw [hrest] at hloop ⊢
    unfold b64decode
    simp only
    rw [if_neg (base64Value?_spec (value_digit (by omega))).2.2, hloop]
    rfl

theorem b64encode_visible (bs : Bytes) : ∀ c ∈ b64encode bs, 0x20 < c.val ∧ c.val < 0x7f := by
  have hdigit : ∀ n < 64, 0x20 < (base64Digit n).val ∧ (base64Digit n).val < 0x7f :=
    fun n hn => (base64Digit_spec n hn).2
  have hpad : 0x20 < (cp '=').val ∧ (cp '=').val < 0x7f := by decide
  induction bs using b64encode.induct with
  | case1 => exact fun c hc => absurd hc List.not_mem_nil
  | case2 a =>
    have ha := a.isLt
    simp only [b64encode, List.forall_mem_cons]
    exact ⟨hdigit _ (by omega), hdigit _ (by omega), hpad, hpad, List.forall_mem_nil _⟩
  | case3 a b =>
    have ha := a.isLt
    have hb := b.isLt
    simp only [b64encode, List.forall_mem_cons]
    exact ⟨hdigit _ (by omega), hdigit _ (by omega), hdigit _ (by omega), hpad, List.forall_mem_nil _⟩
  | case4 a b c rest ih =>
    have ha := a.isLt
    have hb := b.isLt
    have hc := c.isLt
    simp only [b64encode, List.forall_mem_cons]
    exact ⟨hdigit _ (by omega), hdigit _ (by omega), hdigit _ (by omega), hdigit _ (by omega), ih⟩

inductive Reads : Str → Bytes → Prop where
  | pads {s : Str} (h : ∀ c ∈ s, c.val = 0x3d) : Reads s []
  | one {c₀ c₁ c₂ c₃ : CodePoint} {v₀ v₁ : ℕ} (h₀ : base64Value? c₀ = some v₀)
      (h₁ : base64Value? c₁ = some v₁) (h₂ : c₂.val = 0x3d) (h₃ : c₃.val = 0x3d) :
      Reads [c₀, c₁, c₂, c₃] [byte (v₀ * 4 + v₁ / 16)]
  | two {c₀ c₁ c₂ c₃ : CodePoint} {v₀ v₁ v₂ : ℕ} (h₀ : base64Value? c₀ = some v₀)
      (h₁ : base64Value? c₁ = some v₁) (h₂ : base64Value? c₂ = some v₂) (h₃ : c₃.val = 0x3d) :
      Reads [c₀, c₁, c₂, c₃] [byte (v₀ * 4 + v₁ / 16), byte (v₁ % 16 * 16 + v₂ / 4)]
  | quantum {c₀ c₁ c₂ c₃ : CodePoint} {v₀ v₁ v₂ v₃ : ℕ} {rest : Str} {bs : Bytes}
      (h₀ : base64Value? c₀ = some v₀) (h₁ : base64Value? c₁ = some v₁)
      (h₂ : base64Value? c₂ = some v₂) (h₃ : base64Value? c₃ = some v₃) (h : Reads rest bs) :
      Reads (c₀ :: c₁ :: c₂ :: c₃ :: rest)
        (byte (v₀ * 4 + v₁ / 16) :: byte (v₁ % 16 * 16 + v₂ / 4) :: byte (v₂ % 4 * 64 + v₃) :: bs)

theorem base64Loop_padded {s : Str} {quadPos left pads : ℕ} {out bs : Bytes} (hpos : quadPos < 2)
    (h : base64Loop s quadPos left pads true out = some bs) :
    quadPos = 0 ∧ bs = out ∧ ∀ c ∈ s, c.val = 0x3d := by
  induction s generalizing pads with
  | nil =>
    rw [base64Loop] at h
    split at h
    · rename_i hzero
      exact ⟨hzero, (Option.some.inj h).symm, fun c hc => absurd hc List.not_mem_nil⟩
    · cases h
  | cons c s ih =>
    rw [base64Loop] at h
    split at h
    · rename_i hpad
      rw [if_neg (by omega)] at h
      obtain ⟨hzero, hout, hs⟩ := ih h
      refine ⟨hzero, hout, fun d hd => ?_⟩
      rcases List.mem_cons.mp hd with rfl | hd
      · exact hpad
      · exact hs d hd
    · split at h
      · cases h
      · rw [if_pos rfl] at h
        cases h

theorem reads_of_base64Loop : ∀ (s : Str) {left : ℕ} {out bs : Bytes},
    base64Loop s 0 left 0 false out = some bs → ∃ tail, bs = out ++ tail ∧ Reads s tail
  | [], left, out, bs, h => by
    rw [base64Loop, if_pos rfl] at h
    exact ⟨[], by rw [List.append_nil, Option.some.inj h], .pads (List.forall_mem_nil _)⟩
  | c₀ :: s, left, out, bs, h => by
    by_cases hpad₀ : c₀.val = 0x3d
    · rw [base64Loop, if_pos hpad₀, if_neg (by omega)] at h
      obtain ⟨-, rfl, hs⟩ := base64Loop_padded (by omega) h
      exact ⟨[], (List.append_nil _).symm, .pads (List.forall_mem_cons.mpr ⟨hpad₀, hs⟩)⟩
    cases h₀ : base64Value? c₀ with
    | none =>
      rw [base64Loop, if_neg hpad₀, h₀] at h
      cases h
    | some v₀ =>
    rw [base64Loop_first h₀] at h
    match s with
    | [] => simp at h
    | c₁ :: s =>
    by_cases hpad₁ : c₁.val = 0x3d
    · rw [base64Loop, if_pos hpad₁, if_neg (by omega)] at h
      have hzero := (base64Loop_padded (by omega) h).1
      omega
    cases h₁ : base64Value? c₁ with
    | none =>
      rw [base64Loop, if_neg hpad₁, h₁] at h
      cases h
    | some v₁ =>
    rw [base64Loop_second h₁] at h
    match s with
    | [] => simp at h
    | c₂ :: s =>
    by_cases hpad₂ : c₂.val = 0x3d
    · -- one byte: a second pad has to follow, and nothing after it
      rw [base64Loop, if_pos hpad₂, if_pos (by omega), if_neg (by omega)] at h
      match s with
      | [] => simp at h
      | c₃ :: s =>
      by_cases hpad₃ : c₃.val = 0x3d
      · rw [base64Loop, if_pos hpad₃, if_pos (by omega), if_pos (by omega)] at h
        split at h
        · rename_i hempty
          rw [List.isEmpty_iff] at hempty
          subst hempty
          exact ⟨_, (Option.some.inj h).symm, .one h₀ h₁ hpad₂ hpad₃⟩
        · cases h
      · rw [base64Loop, if_neg hpad₃] at h
        split at h
        · cases h
        · rw [if_pos rfl] at h
          cases h
    cases h₂ : base64Value? c₂ with
    | none =>
      rw [base64Loop, if_neg hpad₂, h₂] at h
      cases h
    | some v₂ =>
    rw [base64Loop_third h₂] at h
    match s with
    | [] => simp at h
    | c₃ :: s =>
    by_cases hpad₃ : c₃.val = 0x3d
    · rw [base64Loop, if_pos hpad₃, if_pos (by omega), if_pos (by omega)] at h
      split at h
      · rename_i hempty
        rw [List.isEmpty_iff] at hempty
        subst hempty
        refine ⟨_, ?_, .two h₀ h₁ h₂ hpad₃⟩
        rw [← Option.some.inj h, List.append_assoc]
        rfl
      · cases h
    cases h₃ : base64Value? c₃ with
    | none =>
      rw [base64Loop, if_neg hpad₃, h₃] at h
      cases h
    | some v₃ =>
    rw [base64Loop_fourth h₃] at h
    obtain ⟨tail, rfl, htail⟩ := reads_of_base64Loop s h
    refine ⟨_, ?_, .quantum h₀ h₁ h₂ h₃ htail⟩
    simp

theorem reads_of_decode {s : Str} {bs : Bytes} (h : b64decode s = some bs) : Reads s bs := by
  unfold b64decode at h
  split at h
  · rw [← Option.some.inj h]
    exact .pads (List.forall_mem_nil _)
  · split at h
    · cases h
    · obtain ⟨tail, rfl, htail⟩ := reads_of_base64Loop _ h
      exact htail

def spareBits (s : Str) : ℕ := (s.dropLast.getLast?.bind base64Value?).getD 0 % 4

theorem encode_two {v₀ v₁ v₂ : ℕ} (h₀ : v₀ < 64) (h₁ : v₁ < 64) (h₂ : v₂ < 64) :
    b64encode [byte (v₀ * 4 + v₁ / 16), byte (v₁ % 16 * 16 + v₂ / 4)] =
      [base64Digit v₀, base64Digit v₁, base64Digit (v₂ / 4 * 4), cp '='] := by
  have hfirst := byte_val (v₀ * 4 + v₁ / 16) (by omega)
  have hsecond := byte_val (v₁ % 16 * 16 + v₂ / 4) (by omega)
  rw [b64encode, hfirst, hsecond]
  have e₀ : (v₀ * 4 + v₁ / 16) / 4 = v₀ := by omega
  have e₁ : (v₀ * 4 + v₁ / 16) % 4 * 16 + (v₁ % 16 * 16 + v₂ / 4) / 16 = v₁ := by omega
  have e₂ : (v₁ % 16 * 16 + v₂ / 4) % 16 * 4 = v₂ / 4 * 4 := by omega
  rw [e₀, e₁, e₂]

theorem encode_quantum {v₀ v₁ v₂ v₃ : ℕ} (h₀ : v₀ < 64) (h₁ : v₁ < 64) (h₂ : v₂ < 64)
    (h₃ : v₃ < 64) (bs : Bytes) :
    b64encode (byte (v₀ * 4 + v₁ / 16) :: byte (v₁ % 16 * 16 + v₂ / 4) ::
        byte (v₂ % 4 * 64 + v₃) :: bs) =
      base64Digit v₀ :: base64Digit v₁ :: base64Digit v₂ :: base64Digit v₃ :: b64encode bs := by
  have hfirst := byte_val (v₀ * 4 + v₁ / 16) (by omega)
  have hsecond := byte_val (v₁ % 16 * 16 + v₂ / 4) (by omega)
  have hthird := byte_val (v₂ % 4 * 64 + v₃) (by omega)
  rw [b64encode, hfirst, hsecond, hthird]
  have e₀ : (v₀ * 4 + v₁ / 16) / 4 = v₀ := by omega
  have e₁ : (v₀ * 4 + v₁ / 16) % 4 * 16 + (v₁ % 16 * 16 + v₂ / 4) / 16 = v₁ := by omega
  have e₂ : (v₁ % 16 * 16 + v₂ / 4) % 16 * 4 + (v₂ % 4 * 64 + v₃) / 64 = v₂ := by omega
  have e₃ : (v₂ % 4 * 64 + v₃) % 64 = v₃ := by omega
  rw [e₀, e₁, e₂, e₃]

theorem Reads.ends_in_pad {s : Str} {bs : Bytes} (h : Reads s bs) (hlen : bs.length % 3 = 2) :
    4 ≤ s.length := by
  cases h with
  | pads => simp at hlen
  | one => simp at hlen
  | two => simp
  | quantum => simp

theorem Reads.encode_iff {s : Str} {bs : Bytes} (h : Reads s bs) (hlen : bs.length % 3 = 2) :
    b64encode bs = s ↔ spareBits s = 0 := by
  induction h with
  | pads => simp at hlen
  | one => simp at hlen
  | @two c₀ c₁ c₂ c₃ v₀ v₁ v₂ h₀ h₁ h₂ h₃ =>
    obtain ⟨hlt₀, hdigit₀, -⟩ := base64Value?_spec h₀
    obtain ⟨hlt₁, hdigit₁, -⟩ := base64Value?_spec h₁
    obtain ⟨hlt₂, hdigit₂, -⟩ := base64Value?_spec h₂
    have hpad : c₃ = cp '=' := Fin.ext h₃
    have hspare : spareBits [c₀, c₁, c₂, c₃] = v₂ % 4 := by
      simp [spareBits, h₂]
    rw [encode_two hlt₀ hlt₁ hlt₂, hdigit₀, hdigit₁, hpad, ← hpad, hspare]
    constructor
    · intro heq
      simp only [List.cons.injEq, true_and, and_true] at heq
      have hvalue := value_digit (n := v₂ / 4 * 4) (by omega)
      rw [heq, h₂] at hvalue
      have hsame := Option.some.inj hvalue
      omega
    · intro hzero
      have hsame : v₂ / 4 * 4 = v₂ := by omega
      rw [hsame, hdigit₂]
  | @quantum c₀ c₁ c₂ c₃ v₀ v₁ v₂ v₃ rest bs h₀ h₁ h₂ h₃ hrest ih =>
    obtain ⟨hlt₀, hdigit₀, -⟩ := base64Value?_spec h₀
    obtain ⟨hlt₁, hdigit₁, -⟩ := base64Value?_spec h₁
    obtain ⟨hlt₂, hdigit₂, -⟩ := base64Value?_spec h₂
    obtain ⟨hlt₃, hdigit₃, -⟩ := base64Value?_spec h₃
    have htail : bs.length % 3 = 2 := by
      simp only [List.length_cons] at hlen
      omega
    have hspare : spareBits (c₀ :: c₁ :: c₂ :: c₃ :: rest) = spareBits rest := by
      have hlong := hrest.ends_in_pad htail
      obtain ⟨d, e, more, rfl⟩ : ∃ d e more, rest = d :: e :: more := by
        match rest, hlong with
        | d :: e :: more, _ => exact ⟨d, e, more, rfl⟩
      simp only [spareBits, List.dropLast_cons_cons, List.getLast?_cons_cons]
    rw [encode_quantum hlt₀ hlt₁ hlt₂ hlt₃, hdigit₀, hdigit₁, hdigit₂, hdigit₃, hspare, ← ih htail]
    simp

end PyCodec
