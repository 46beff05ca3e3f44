import TexGovernance.Lib.PyBytes

/-!
# Base64 for URLs

`base64.urlsafe_b64encode` without its padding, and `base64.urlsafe_b64decode` of a
text with the padding put back. The decoder skips what is no digit and stops at the
padding that completes a group.
-/

namespace UrlBase64
open PyStr PyBytes PyCodec

def digit (n : ℕ) : CodePoint :=
  Fin.ofNat 0x110000 (if n < 26 then 0x41 + n else if n < 52 then 0x61 + (n - 26)
    else if n < 62 then 0x30 + (n - 52) else if n = 62 then 0x2d else 0x5f)

def encode : Bytes → Str
  | [] => []
  | [a] => [digit (a.val / 4), digit (a.val % 4 * 16)]
  | [a, b] => [digit (a.val / 4), digit (a.val % 4 * 16 + b.val / 16), digit (b.val % 16 * 4)]
  | a :: b :: c :: rest =>
    digit (a.val / 4) :: digit (a.val % 4 * 16 + b.val / 16) :: digit (b.val % 16 * 4 + c.val / 64) ::
      digit (c.val % 64) :: encode rest

def value? (c : CodePoint) : Option ℕ :=
  let n := c.val
  if 0x41 ≤ n ∧ n ≤ 0x5a then some (n - 0x41)
  else if 0x61 ≤ n ∧ n ≤ 0x7a then some (n - 0x61 + 26)
  else if 0x30 ≤ n ∧ n ≤ 0x39 then some (n - 0x30 + 52)
  else if n = 0x2d ∨ n = 0x2b then some 62
  else if n = 0x5f ∨ n = 0x2f then some 63
  else none

/-- The loop of `binascii.a2b_base64`, not strict: the place in the group of four, the
bits left of the last digit, the padding seen, and what was decoded. -/
def decodeLoop : Str → ℕ → ℕ → ℕ → Bytes → Option Bytes
  | [], place, _, _, out => if place = 0 then some out else none
  | c :: rest, place, left, pads, out =>
    if c = cp '=' then
      if place < 2 then decodeLoop rest place left pads out
      else if 4 ≤ place + (pads + 1) then some out
      else decodeLoop rest place left (pads + 1) out
    else match value? c with
      | none => decodeLoop rest place left pads out
      | some v => match place with
        | 0 => decodeLoop rest 1 v 0 out
        | 1 => decodeLoop rest 2 (v % 16) 0 (out ++ [byte (left * 4 + v / 16)])
        | 2 => decodeLoop rest 3 (v % 4) 0 (out ++ [byte (left * 16 + v / 4)])
        | _ => decodeLoop rest 0 0 0 (out ++ [byte (left * 64 + v)])

def padding (length : ℕ) : Str := List.replicate ((4 - length % 4) % 4) (cp '=')

/-- Every failure is a `ValueError`. -/
def decode (text : Str) : Option Bytes :=
  if text.all fun c => c.val < 0x80 then decodeLoop (text ++ padding text.length) 0 0 0 [] else none

/-- `base64.b64decode`: the digits of the other alphabet are skipped, and no padding is put
back. -/
def decodeStandard (text : Str) : Option Bytes :=
  if text.all fun c => c.val < 0x80 then
    decodeLoop (text.filter fun c => c ≠ cp '-' ∧ c ≠ cp '_') 0 0 0 []
  else none

attribute [local simp] encode decodeLoop

theorem digit_spec : ∀ n < 64, value? (digit n) = some n ∧ digit n ≠ cp '=' ∧ (digit n).val < 0x7f ∧
    0x20 ≤ (digit n).val ∧ digit n ≠ cp '.' := by
  decide

section
variable {n : ℕ} (h : n < 64) (rest : Str) (left pads : ℕ) (out : Bytes)
include h

theorem decodeLoop_first :
    decodeLoop (digit n :: rest) 0 left pads out = decodeLoop rest 1 n 0 out := by
  obtain ⟨hvalue, hpad, -⟩ := digit_spec n h
  rw [decodeLoop, if_neg hpad, hvalue]
  rfl

theorem decodeLoop_second :
    decodeLoop (digit n :: rest) 1 left pads out =
      decodeLoop rest 2 (n % 16) 0 (out ++ [byte (left * 4 + n / 16)]) := by
  obtain ⟨hvalue, hpad, -⟩ := digit_spec n h
  rw [decodeLoop, if_neg hpad, hvalue]
  rfl

theorem decodeLoop_third :
    decodeLoop (digit n :: rest) 2 left pads out =
      decodeLoop rest 3 (n % 4) 0 (out ++ [byte (left * 16 + n / 4)]) := by
  obtain ⟨hvalue, hpad, -⟩ := digit_spec n h
  rw [decodeLoop, if_neg hpad, hvalue]
  rfl

theorem decodeLoop_fourth :
    decodeLoop (digit n :: rest) 3 left pads out =
      decodeLoop rest 0 0 0 (out ++ [byte (left * 64 + n)]) := by
  obtain ⟨hvalue, hpad, -⟩ := digit_spec n h
  rw [decodeLoop, if_neg hpad, hvalue]
  rfl

end

theorem decodeLoop_encode (bs : Bytes) (out : Bytes) :
    decodeLoop (encode bs ++ padding (encode bs).length) 0 0 0 out = some (out ++ bs) := by
  induction bs using encode.induct generalizing out with
  | case1 => simp [padding]
  | case2 a =>
    have ha := a.isLt
    have hfirst : byte (a.val / 4 * 4 + a.val % 4 * 16 / 16) = a := byte_of_val (by omega)
    show decodeLoop (digit _ :: digit _ :: [cp '=', cp '=']) 0 0 0 out = _
    rw [decodeLoop_first (by omega), decodeLoop_second (by omega), hfirst]
    rfl
  | case3 a b =>
    have ha := a.isLt
    have hb := b.isLt
    have hfirst : byte (a.val / 4 * 4 + (a.val % 4 * 16 + b.val / 16) / 16) = a := byte_of_val (by omega)
    have hsecond : byte ((a.val % 4 * 16 + b.val / 16) % 16 * 16 + b.val % 16 * 4 / 4) = b :=
      byte_of_val (by omega)
    show decodeLoop (digit _ :: digit _ :: digit _ :: [cp '=']) 0 0 0 out = _
    rw [decodeLoop_first (by omega), decodeLoop_second (by omega), decodeLoop_third (by omega), hfirst,
      hsecond, List.append_assoc]
    rfl
  | case4 a b c rest ih =>
    have ha := a.isLt
    have hb := b.isLt
    have hc := c.isLt
    have hfirst : byte (a.val / 4 * 4 + (a.val % 4 * 16 + b.val / 16) / 16) = a := byte_of_val (by omega)
    have hsecond : byte ((a.val % 4 * 16 + b.val / 16) % 16 * 16 + (b.val % 16 * 4 + c.val / 64) / 4) = b :=
      byte_of_val (by omega)
    have hthird : byte ((b.val % 16 * 4 + c.val / 64) % 4 * 64 + c.val % 64) = c := byte_of_val (by omega)
    have hpadding : padding (encode (a :: b :: c :: rest)).length = padding (encode rest).length := by
      unfold padding
      simp only [encode, List.length_cons]
      congr 2
      omega
    rw [hpadding]
    show decodeLoop (digit _ :: digit _ :: digit _ :: digit _ :: (encode rest ++ padding (encode rest).length))
      0 0 0 out = _
    rw [decodeLoop_first (by omega), decodeLoop_second (by omega), decodeLoop_third (by omega),
      decodeLoop_fourth (by omega), hfirst, hsecond, hthird, ih]
    simp

def IsDigits (s : Str) : Prop := ∀ c ∈ s, c.val < 0x7f ∧ 0x20 ≤ c.val ∧ c ≠ cp '.'

theorem isDigits_encode (bs : Bytes) : IsDigits (encode bs) := by
  have hdigit : ∀ n < 64, (digit n).val < 0x7f ∧ 0x20 ≤ (digit n).val ∧ digit n ≠ cp '.' :=
    fun n hn => (digit_spec n hn).2.2
  induction bs using encode.induct with
  | case1 => exact fun c hc => absurd hc List.not_mem_nil
  | case2 a =>
    have ha := a.isLt
    simp only [IsDigits, encode, List.forall_mem_cons]
    exact ⟨hdigit _ (by omega), hdigit _ (by omega), List.forall_mem_nil _⟩
  | case3 a b =>
    have ha := a.isLt
    have hb := b.isLt
    simp only [IsDigits, encode, List.forall_mem_cons]
    exact ⟨hdigit _ (by omega), hdigit _ (by omega), hdigit _ (by omega), List.forall_mem_nil _⟩
  | case4 a b c rest ih =>
    have ha := a.isLt
    have hb := b.isLt
    have hc := c.isLt
    simp only [IsDigits, encode, List.forall_mem_cons]
    exact ⟨hdigit _ (by omega), hdigit _ (by omega), hdigit _ (by omega), hdigit _ (by omega), ih⟩

theorem decode_encode (bs : Bytes) : decode (encode bs) = some bs := by
  have hascii : (encode bs).all (fun c => c.val < 0x80) = true := by
    rw [List.all_eq_true]
    intro c hc
    have hbound := (isDigits_encode bs c hc).1
    exact decide_eq_true (by omega)
  unfold decode
  rw [if_pos hascii, decodeLoop_encode, List.nil_append]

theorem length_encode (bs : Bytes) : (encode bs).length = (8 * bs.length + 5) / 6 := by
  induction bs using encode.induct with
  | case1 => simp
  | case2 a => simp
  | case3 a b => simp
  | case4 a b c rest ih =>
    simp only [encode, List.length_cons, ih]
    omega

end UrlBase64
