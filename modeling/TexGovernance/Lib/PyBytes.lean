import Mathlib.Data.List.Basic
import Mathlib.Tactic.IntervalCases
import Mathlib.Tactic.Ring
import TexGovernance.Lib.PyStr

/-!
# Python bytes and hexadecimal text

`bytes.hex` and `bytes.fromhex` as CPython 3.12 has them: decoding accepts
both cases of a digit and skips ASCII white space between two byte pairs, so
several strings decode to the same bytes.
-/

namespace PyBytes
open PyStr

abbrev Byte := Fin 256

abbrev Bytes := List Byte

instance byte_neZero : NeZero 256 := ⟨by decide⟩

def byte (n : ℕ) : Byte := Fin.ofNat 256 n

/-- `int.to_bytes(k, "big")` for a number that fits. -/
def toBytesBig (k n : ℕ) : Bytes := (List.range k).map fun i => byte (n / 256 ^ (k - 1 - i))

theorem length_toBytesBig (k n : ℕ) : (toBytesBig k n).length = k := by
  simp [toBytesBig]

/-- `Py_ISSPACE`: the six ASCII white-space characters. -/
def isAsciiSpace (c : CodePoint) : Bool := (0x9 ≤ c.val && c.val ≤ 0xd) || c.val == 0x20

def hexValue? (c : CodePoint) : Option ℕ :=
  if 0x30 ≤ c.val ∧ c.val ≤ 0x39 then some (c.val - 0x30)
  else if 0x41 ≤ c.val ∧ c.val ≤ 0x46 then some (c.val - 0x41 + 10)
  else if 0x61 ≤ c.val ∧ c.val ≤ 0x66 then some (c.val - 0x61 + 10)
  else none

def fromhex : Str → Except PyErr Bytes
  | [] => .ok []
  | [c] => if isAsciiSpace c then .ok [] else .error .valueError
  | c :: d :: rest =>
    if isAsciiSpace c then fromhex (d :: rest)
    else match hexValue? c, hexValue? d with
      | some hi, some lo =>
        match fromhex rest with
        | .ok bs => .ok (byte (16 * hi + lo) :: bs)
        | .error e => .error e
      | _, _ => .error .valueError

def hexDigit (n : ℕ) : CodePoint :=
  Fin.ofNat 0x110000 (if n < 10 then 0x30 + n else 0x61 + (n - 10))

def hex : Bytes → Str
  | [] => []
  | b :: bs => hexDigit (b.val / 16) :: hexDigit (b.val % 16) :: hex bs

theorem hex_length (bs : Bytes) : (hex bs).length = 2 * bs.length := by
  induction bs with
  | nil => rfl
  | cons b bs ih =>
    simp only [hex, List.length_cons, ih]
    omega

theorem isAsciiSpace_hexDigit (n : ℕ) (h : n < 16) : isAsciiSpace (hexDigit n) = false := by
  interval_cases n <;> rfl

theorem hexValue?_hexDigit (n : ℕ) (h : n < 16) : hexValue? (hexDigit n) = some n := by
  interval_cases n <;> rfl

theorem fromhex_hex (bs : Bytes) : fromhex (hex bs) = .ok bs := by
  induction bs with
  | nil => rfl
  | cons b bs ih =>
    have hhi : b.val / 16 < 16 := by omega
    have hlo : b.val % 16 < 16 := by omega
    have hb : byte (16 * (b.val / 16) + b.val % 16) = b := by
      rw [Nat.div_add_mod]
      exact Fin.ofNat_val_eq_self b
    simp only [hex, fromhex, isAsciiSpace_hexDigit _ hhi, hexValue?_hexDigit _ hhi,
      hexValue?_hexDigit _ hlo, ih, hb]
    rfl

theorem length_of_fromhex {s : Str} {bs : Bytes} (h : fromhex s = .ok bs) : 2 * bs.length ≤ s.length := by
  fun_induction fromhex s generalizing bs with
  | case1 =>
    obtain rfl := Except.ok.inj h
    exact le_refl 0
  | case2 c hspace =>
    obtain rfl := Except.ok.inj h
    exact Nat.zero_le 1
  | case3 c hspace => cases h
  | case4 c d rest hspace ih =>
    have hrest := ih h
    rw [List.length_cons]
    omega
  | case5 c d rest hspace hi lo hhi hlo bs' hbytes ih =>
    obtain rfl := Except.ok.inj h
    have hrest := ih hbytes
    rw [List.length_cons, List.length_cons, List.length_cons]
    omega
  | case6 => cases h
  | case7 => cases h

theorem hex_inj (bs cs : Bytes) (h : hex bs = hex cs) : bs = cs := by
  have hb := fromhex_hex bs
  rw [h, fromhex_hex cs] at hb
  exact (Except.ok.inj hb).symm

def isHexText (s : Str) : Bool := s.all fun c => (hexValue? c).isSome

theorem isAsciiSpace_of_hexValue? (c : CodePoint) (h : (hexValue? c).isSome) :
    isAsciiSpace c = false := by
  unfold hexValue? at h
  unfold isAsciiSpace
  simp only [Bool.or_eq_false_iff, Bool.and_eq_false_iff, decide_eq_false_iff_not,
    beq_eq_false_iff_ne]
  split_ifs at h <;> first | omega | simp at h

theorem fromhex_hexText (n : ℕ) (s : Str) (hlen : s.length = 2 * n) (h : isHexText s = true) :
    ∃ bs, fromhex s = .ok bs ∧ bs.length = n := by
  induction n generalizing s with
  | zero =>
    have hs : s = [] := List.length_eq_zero_iff.mp hlen
    subst hs
    exact ⟨[], rfl, rfl⟩
  | succ n ih =>
    match s with
    | [] => simp at hlen
    | [c] => simp at hlen; omega
    | c :: d :: rest =>
      simp only [isHexText, List.all_cons, Bool.and_eq_true] at h
      obtain ⟨hc, hd, hrest⟩ := h
      obtain ⟨bs, hbs, hlenbs⟩ := ih rest (by simp at hlen; omega) hrest
      obtain ⟨hi, hhi⟩ := Option.isSome_iff_exists.mp hc
      obtain ⟨lo, hlo⟩ := Option.isSome_iff_exists.mp hd
      refine ⟨byte (16 * hi + lo) :: bs, ?_, by simp [hlenbs]⟩
      simp only [fromhex, isAsciiSpace_of_hexValue? c hc, hhi, hlo, hbs]
      rfl

end PyBytes

/-!
## UTF-8, base64 and decimal text in Python

`str.encode("utf-8")` refuses lone surrogates. `base64.b64decode` with `validate=True` is the
strict mode of `binascii.a2b_base64`: padding may be longer than needed after a complete
quantum, and the unused low bits of the last character are not looked at.
-/

namespace PyCodec
open PyStr PyBytes

def encodeCodePoint (c : CodePoint) : Option Bytes :=
  let n := c.val
  if n < 0x80 then some [byte n]
  else if n < 0x800 then some [byte (0xc0 + n / 64), byte (0x80 + n % 64)]
  else if 0xd800 ≤ n ∧ n ≤ 0xdfff then none
  else if n < 0x10000 then
    some [byte (0xe0 + n / 4096), byte (0x80 + n / 64 % 64), byte (0x80 + n % 64)]
  else
    some [byte (0xf0 + n / 262144), byte (0x80 + n / 4096 % 64), byte (0x80 + n / 64 % 64),
      byte (0x80 + n % 64)]

def utf8Encode : Str → Except PyErr Bytes
  | [] => .ok []
  | c :: rest =>
    match encodeCodePoint c with
    | none => .error .unicodeEncodeError
    | some bs =>
      match utf8Encode rest with
      | .error e => .error e
      | .ok tail => .ok (bs ++ tail)

def base64Value? (c : CodePoint) : Option ℕ :=
  if 0x41 ≤ c.val ∧ c.val ≤ 0x5a then some (c.val - 0x41)
  else if 0x61 ≤ c.val ∧ c.val ≤ 0x7a then some (c.val - 0x61 + 26)
  else if 0x30 ≤ c.val ∧ c.val ≤ 0x39 then some (c.val - 0x30 + 52)
  else if c.val = 0x2b then some 62
  else if c.val = 0x2f then some 63
  else none

/-- The loop of `a2b_base64` in strict mode: position in the quantum, left
over bits, pads seen, whether padding has started, bytes so far. -/
def base64Loop : Str → ℕ → ℕ → ℕ → Bool → Bytes → Option Bytes
  | [], quadPos, _, _, _, out => if quadPos = 0 then some out else none
  | c :: rest, quadPos, left, pads, padded, out =>
    if c.val = 0x3d then
      if quadPos ≥ 2 then
        if quadPos + (pads + 1) ≥ 4 then (if rest.isEmpty then some out else none)
        else base64Loop rest quadPos left (pads + 1) true out
      else base64Loop rest quadPos left pads true out
    else match base64Value? c with
      | none => none
      | some v =>
        if padded then none
        else match quadPos with
          | 0 => base64Loop rest 1 v 0 padded out
          | 1 => base64Loop rest 2 (v % 16) 0 padded (out ++ [byte (left * 4 + v / 16)])
          | 2 => base64Loop rest 3 (v % 4) 0 padded (out ++ [byte (left * 16 + v / 4)])
          | _ => base64Loop rest 0 0 0 padded (out ++ [byte (left * 64 + v)])

/-- `base64.b64decode(s, validate=True)`; every failure is one. -/
def b64decode (s : Str) : Option Bytes :=
  match s with
  | [] => some []
  | c :: _ => if c.val = 0x3d then none else base64Loop s 0 0 0 false []

def base64Digit (n : ℕ) : CodePoint :=
  Fin.ofNat 0x110000 (if n < 26 then 0x41 + n else if n < 52 then 0x61 + (n - 26)
    else if n < 62 then 0x30 + (n - 52) else if n = 62 then 0x2b else 0x2f)

def b64encode : Bytes → Str
  | [] => []
  | [a] => [base64Digit (a.val / 4), base64Digit (a.val % 4 * 16), cp '=', cp '=']
  | [a, b] =>
    [base64Digit (a.val / 4), base64Digit (a.val % 4 * 16 + b.val / 16),
      base64Digit (b.val % 16 * 4), cp '=']
  | a :: b :: c :: rest =>
    base64Digit (a.val / 4) :: base64Digit (a.val % 4 * 16 + b.val / 16) ::
      base64Digit (b.val % 16 * 4 + c.val / 64) :: base64Digit (c.val % 64) :: b64encode rest

def fromBytesBig (bs : Bytes) : ℕ := bs.foldl (fun acc b => acc * 256 + b.val) 0

/-- `str` of a non-negative integer; more than `maxStrDigits` digits are
refused. -/
def decimalText (n : ℕ) : Except PyErr Str :=
  let digits := (Nat.toDigits 10 n).map cp
  if maxStrDigits < digits.length then .error .valueError else .ok digits

def decodeCodePoint : Bytes → Option (ℕ × Bytes)
  | [] => none
  | a :: rest =>
    if a.val < 0x80 then some (a.val, rest)
    else if a.val < 0xe0 then
      match rest with
      | b :: rest => some ((a.val - 0xc0) * 64 + (b.val - 0x80), rest)
      | _ => none
    else if a.val < 0xf0 then
      match rest with
      | b :: c :: rest =>
        some (((a.val - 0xe0) * 64 + (b.val - 0x80)) * 64 + (c.val - 0x80), rest)
      | _ => none
    else
      match rest with
      | b :: c :: d :: rest =>
        some ((((a.val - 0xf0) * 64 + (b.val - 0x80)) * 64 + (c.val - 0x80)) * 64 +
          (d.val - 0x80), rest)
      | _ => none

theorem byte_val (n : ℕ) (h : n < 256) : (byte n).val = n := Nat.mod_eq_of_lt h

theorem byte_of_val {n : ℕ} {b : Byte} (h : n = b.val) : byte n = b := by
  rw [h]
  exact Fin.ext (Nat.mod_eq_of_lt b.isLt)

theorem decodeCodePoint_encode (c : CodePoint) (bs rest : Bytes)
    (h : encodeCodePoint c = some bs) : decodeCodePoint (bs ++ rest) = some (c.val, rest) := by
  have hc := c.isLt
  unfold encodeCodePoint at h
  simp only at h
  by_cases h1 : c.val < 0x80
  · rw [if_pos h1] at h
    rw [← Option.some.inj h]
    simp only [List.cons_append, List.nil_append, decodeCodePoint, byte_val c.val (by omega), h1,
      if_true]
  · rw [if_neg h1] at h
    by_cases h2 : c.val < 0x800
    · rw [if_pos h2] at h
      rw [← Option.some.inj h]
      simp only [List.cons_append, List.nil_append, decodeCodePoint,
        byte_val (0xc0 + c.val / 64) (by omega), byte_val (0x80 + c.val % 64) (by omega)]
      rw [if_neg (by omega), if_pos (by omega)]
      simp only [Option.some.injEq, Prod.mk.injEq, and_true]
      omega
    · rw [if_neg h2] at h
      by_cases hs : 0xd800 ≤ c.val ∧ c.val ≤ 0xdfff
      · rw [if_pos hs] at h
        cases h
      · rw [if_neg hs] at h
        by_cases h3 : c.val < 0x10000
        · rw [if_pos h3] at h
          rw [← Option.some.inj h]
          simp only [List.cons_append, List.nil_append, decodeCodePoint,
            byte_val (0xe0 + c.val / 4096) (by omega), byte_val (0x80 + c.val / 64 % 64) (by omega),
            byte_val (0x80 + c.val % 64) (by omega)]
          rw [if_neg (by omega), if_neg (by omega), if_pos (by omega)]
          simp only [Option.some.injEq, Prod.mk.injEq, and_true]
          omega
        · rw [if_neg h3] at h
          rw [← Option.some.inj h]
          simp only [List.cons_append, List.nil_append, decodeCodePoint,
            byte_val (0xf0 + c.val / 262144) (by omega),
            byte_val (0x80 + c.val / 4096 % 64) (by omega),
            byte_val (0x80 + c.val / 64 % 64) (by omega), byte_val (0x80 + c.val % 64) (by omega)]
          rw [if_neg (by omega), if_neg (by omega), if_neg (by omega)]
          simp only [Option.some.injEq, Prod.mk.injEq, and_true]
          omega

theorem encodeCodePoint_ne_nil (c : CodePoint) (bs : Bytes) (h : encodeCodePoint c = some bs) :
    bs ≠ [] := by
  intro h0
  have hdec := decodeCodePoint_encode c bs [] h
  rw [h0] at hdec
  cases hdec

theorem utf8Encode_cons (c : CodePoint) (s : Str) (b : Bytes) (h : utf8Encode (c :: s) = .ok b) :
    ∃ bs tail, encodeCodePoint c = some bs ∧ utf8Encode s = .ok tail ∧ b = bs ++ tail := by
  unfold utf8Encode at h
  cases hc : encodeCodePoint c with
  | none =>
    rw [hc] at h
    cases h
  | some bs =>
    cases hs : utf8Encode s with
    | error e =>
      rw [hc, hs] at h
      cases h
    | ok tail =>
      rw [hc, hs] at h
      exact ⟨bs, tail, rfl, rfl, (Except.ok.inj h).symm⟩

theorem utf8Encode_inj (s t : Str) (b : Bytes) (hs : utf8Encode s = .ok b)
    (ht : utf8Encode t = .ok b) : s = t := by
  induction s generalizing t b with
  | nil =>
    cases t with
    | nil => rfl
    | cons d t =>
      obtain ⟨bs, tail, hd, -, hb⟩ := utf8Encode_cons d t b ht
      rw [← Except.ok.inj hs] at hb
      exact absurd (List.append_eq_nil_iff.mp hb.symm).1 (encodeCodePoint_ne_nil d bs hd)
  | cons c s ih =>
    obtain ⟨bs, tail, hc, hs', hb⟩ := utf8Encode_cons c s b hs
    cases t with
    | nil =>
      rw [← Except.ok.inj ht] at hb
      exact absurd (List.append_eq_nil_iff.mp hb.symm).1 (encodeCodePoint_ne_nil c bs hc)
    | cons d t =>
      obtain ⟨cs, tail', hd, ht', hb'⟩ := utf8Encode_cons d t b ht
      have hdec := decodeCodePoint_encode c bs tail hc
      rw [← hb, hb', decodeCodePoint_encode d cs tail' hd] at hdec
      obtain ⟨hval, htail⟩ := Prod.mk.inj (Option.some.inj hdec)
      rw [htail] at ht'
      rw [Fin.ext hval.symm, ih t tail hs' ht']

theorem ascii_of_encodeCodePoint {n : ℕ} (hn : n < 0x80) {c : CodePoint} {bs : Bytes}
    (h : encodeCodePoint c = some bs) (hmem : byte n ∈ bs) : c.val = n := by
  have hc := c.isLt
  have hhigh : ∀ m : ℕ, 0x80 ≤ m → m < 256 → byte n ≠ byte m := by
    intro m h1 h2 heq
    have hval := congrArg Fin.val heq
    rw [byte_val n (by omega), byte_val m h2] at hval
    omega
  unfold encodeCodePoint at h
  simp only at h
  split_ifs at h with h1 h2 h3 h4
  · rw [← Option.some.inj h, List.mem_singleton] at hmem
    have hval := congrArg Fin.val hmem
    rw [byte_val n (by omega), byte_val c.val (by omega)] at hval
    exact hval.symm
  · rw [← Option.some.inj h] at hmem
    simp only [List.mem_cons, List.not_mem_nil, or_false] at hmem
    rcases hmem with hm | hm
    · exact absurd hm (hhigh _ (by omega) (by omega))
    · exact absurd hm (hhigh _ (by omega) (by omega))
  · rw [← Option.some.inj h] at hmem
    simp only [List.mem_cons, List.not_mem_nil, or_false] at hmem
    rcases hmem with hm | hm | hm
    · exact absurd hm (hhigh _ (by omega) (by omega))
    · exact absurd hm (hhigh _ (by omega) (by omega))
    · exact absurd hm (hhigh _ (by omega) (by omega))
  · rw [← Option.some.inj h] at hmem
    simp only [List.mem_cons, List.not_mem_nil, or_false] at hmem
    rcases hmem with hm | hm | hm | hm
    · exact absurd hm (hhigh _ (by omega) (by omega))
    · exact absurd hm (hhigh _ (by omega) (by omega))
    · exact absurd hm (hhigh _ (by omega) (by omega))
    · exact absurd hm (hhigh _ (by omega) (by omega))

theorem ascii_of_utf8Encode {n : ℕ} (hn : n < 0x80) {s : Str} {b : Bytes} (h : utf8Encode s = .ok b)
    (hmem : byte n ∈ b) : ∃ c ∈ s, c.val = n := by
  induction s generalizing b with
  | nil =>
    rw [← Except.ok.inj h] at hmem
    cases hmem
  | cons c s ih =>
    obtain ⟨bs, tail, hc, hs, hb⟩ := utf8Encode_cons c s b h
    rw [hb, List.mem_append] at hmem
    rcases hmem with hm | hm
    · exact ⟨c, List.mem_cons_self, ascii_of_encodeCodePoint hn hc hm⟩
    · obtain ⟨d, hd, hval⟩ := ih hs hm
      exact ⟨d, List.mem_cons_of_mem _ hd, hval⟩

theorem utf8Encode_append {s t : Str} {b b' : Bytes} (hs : utf8Encode s = .ok b)
    (ht : utf8Encode t = .ok b') : utf8Encode (s ++ t) = .ok (b ++ b') := by
  induction s generalizing b with
  | nil =>
    rw [← Except.ok.inj hs]
    exact ht
  | cons c s ih =>
    obtain ⟨bs, tail, hc, hs', rfl⟩ := utf8Encode_cons c s b hs
    simp only [List.cons_append, utf8Encode, hc, ih hs', List.append_assoc]

theorem decimalText_digits {n : ℕ} {s : Str} (h : decimalText n = .ok s) :
    s ≠ [] ∧ ∀ c ∈ s, 0x30 ≤ c.val ∧ c.val ≤ 0x39 := by
  unfold decimalText at h
  simp only at h
  by_cases hlen : maxStrDigits < ((Nat.toDigits 10 n).map cp).length
  · rw [if_pos hlen] at h
    cases h
  · rw [if_neg hlen] at h
    rw [← Except.ok.inj h]
    refine ⟨?_, ?_⟩
    · rw [Ne, List.map_eq_nil_iff]
      exact Nat.toDigits_ne_nil
    · exact fun c hc => mem_natText hc

theorem newline_not_mem_decimalText (n : ℕ) (s : Str) (h : decimalText n = .ok s) :
    cp '\n' ∉ s := by
  intro hmem
  have hrange := (decimalText_digits h).2 _ hmem
  have hval : (cp '\n').val = 10 := rfl
  omega

end PyCodec
