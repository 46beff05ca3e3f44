import TexGovernance.Lib.PyBytes

/-!
# The `repr` of a Python string

`repr` puts a text in quotes and escapes what is not printable. Since a lone
surrogate is not printable, the result never holds one. Which characters are
printable is a parameter.
-/

namespace PyRepr
open PyStr PyBytes PyCodec

def isSurrogate (c : CodePoint) : Bool := inRanges [(0xd800, 0xdfff)] c

def Plain (s : Str) : Prop := ∀ c ∈ s, isSurrogate c = false

instance (s : Str) : Decidable (Plain s) := List.decidableBAll (fun c => isSurrogate c = false) s

theorem isSurrogate_of_lt {c : CodePoint} (h : c.val < 0xd800) : isSurrogate c = false := by
  simp only [isSurrogate, inRanges, List.any_cons, List.any_nil, Bool.or_false, Bool.and_eq_false_iff,
    decide_eq_false_iff_not]
  omega

theorem isSurrogate_cp (c : Char) : isSurrogate (cp c) = false := by
  have hlt : c.toNat < 0x110000 := by
    rcases c.valid with h | h
    · exact lt_trans h (by decide)
    · exact h.2
  have hval : (cp c).val = c.toNat := Nat.mod_eq_of_lt hlt
  simp only [isSurrogate, inRanges, List.any_cons, List.any_nil, Bool.or_false, Bool.and_eq_false_iff,
    decide_eq_false_iff_not, hval]
  rcases c.valid with h | h
  · have hlow : c.toNat < 0xd800 := h
    omega
  · have hhigh : 0xdfff < c.toNat := h.1
    omega

theorem plain_txt (s : String) : Plain (txt s) := by
  intro c hc
  obtain ⟨d, -, rfl⟩ := List.mem_map.mp hc
  exact isSurrogate_cp d

theorem Plain.append {s t : Str} (hs : Plain s) (ht : Plain t) : Plain (s ++ t) := by
  intro c hc
  rcases List.mem_append.mp hc with hc | hc
  · exact hs c hc
  · exact ht c hc

theorem Plain.cons {c : CodePoint} {s : Str} (hc : isSurrogate c = false) (hs : Plain s) :
    Plain (c :: s) := by
  intro d hd
  rcases List.mem_cons.mp hd with rfl | hd
  · exact hc
  · exact hs d hd

theorem encodeCodePoint_isSome {c : CodePoint} (h : isSurrogate c = false) :
    ∃ bs, encodeCodePoint c = some bs := by
  unfold encodeCodePoint
  simp only
  split
  · exact ⟨_, rfl⟩
  split
  · exact ⟨_, rfl⟩
  split
  · rename_i hsur
    simp only [isSurrogate, inRanges, List.any_cons, List.any_nil, Bool.or_false,
      Bool.and_eq_false_iff, decide_eq_false_iff_not] at h
    omega
  split
  · exact ⟨_, rfl⟩
  · exact ⟨_, rfl⟩

theorem utf8Encode_of_plain {s : Str} (h : Plain s) : ∃ bs, utf8Encode s = .ok bs := by
  induction s with
  | nil => exact ⟨[], rfl⟩
  | cons c s ih =>
    obtain ⟨bs, hbs⟩ := encodeCodePoint_isSome (h c List.mem_cons_self)
    obtain ⟨tail, htail⟩ := ih fun d hd => h d (List.mem_cons_of_mem _ hd)
    exact ⟨bs ++ tail, by simp only [utf8Encode, hbs, htail]⟩

/-- `str.encode()` of a text without lone surrogates. -/
def utf8 (s : Str) : Bytes := s.flatMap fun c => (encodeCodePoint c).getD []

theorem utf8Encode_eq {s : Str} (h : Plain s) : utf8Encode s = .ok (utf8 s) := by
  induction s with
  | nil => rfl
  | cons c s ih =>
    obtain ⟨bs, hbs⟩ := encodeCodePoint_isSome (h c List.mem_cons_self)
    have htail := ih fun d hd => h d (List.mem_cons_of_mem _ hd)
    simp only [utf8Encode, hbs, htail, utf8, List.flatMap_cons, Option.getD_some]

theorem utf8_inj {s t : Str} (hs : Plain s) (ht : Plain t) (h : utf8 s = utf8 t) : s = t := by
  have hencode := utf8Encode_eq ht
  rw [← h] at hencode
  exact utf8Encode_inj s t _ (utf8Encode_eq hs) hencode

theorem plain_of_utf8Encode {s : Str} {bs : Bytes} (h : utf8Encode s = .ok bs) : Plain s := by
  induction s generalizing bs with
  | nil =>
    intro c hc
    cases hc
  | cons c s ih =>
    obtain ⟨head, tail, hhead, htail, -⟩ := utf8Encode_cons c s bs h
    refine Plain.cons ?_ (ih htail)
    by_contra hsur
    simp only [isSurrogate, inRanges, List.any_cons, List.any_nil, Bool.or_false,
      Bool.not_eq_false, Bool.and_eq_true, decide_eq_true_eq] at hsur
    unfold encodeCodePoint at hhead
    simp only at hhead
    rw [if_neg (by omega), if_neg (by omega), if_pos (by omega)] at hhead
    cases hhead

/-- `n` in hexadecimal with `width` digits. -/
def hexPad : ℕ → ℕ → Str
  | 0, _ => []
  | width + 1, n => hexDigit (n / 16 ^ width % 16) :: hexPad width n

theorem plain_hexPad (width n : ℕ) : Plain (hexPad width n) := by
  induction width with
  | zero =>
    intro c hc
    cases hc
  | succ width ih =>
    refine Plain.cons (isSurrogate_of_lt ?_) ih
    have hlt : n / 16 ^ width % 16 < 16 := Nat.mod_lt _ (by decide)
    generalize n / 16 ^ width % 16 = d at hlt
    interval_cases d <;> decide

def quoteOf (s : Str) : CodePoint :=
  if cp '\'' ∈ s ∧ cp '\x22' ∉ s then cp '\x22' else cp '\''

section Printable

variable (isprintable : CodePoint → Bool)

def escapeChar (quote c : CodePoint) : Str :=
  if c = quote ∨ c = cp '\\' then [cp '\\', c]
  else if c = cp '\t' then txt "\\t"
  else if c = cp '\n' then txt "\\n"
  else if c = cp '\r' then txt "\\r"
  else if c.val < 0x20 ∨ c.val = 0x7f then txt "\\x" ++ hexPad 2 c.val
  else if c.val < 0x7f ∨ isprintable c then [c]
  else if c.val < 0x100 then txt "\\x" ++ hexPad 2 c.val
  else if c.val < 0x10000 then txt "\\u" ++ hexPad 4 c.val
  else txt "\\U" ++ hexPad 8 c.val

def repr (s : Str) : Str :=
  quoteOf s :: s.flatMap (escapeChar isprintable (quoteOf s)) ++ [quoteOf s]

variable (hsurrogate : ∀ c, isSurrogate c = true → isprintable c = false)
include hsurrogate

theorem plain_escapeChar {quote : CodePoint} (hquote : isSurrogate quote = false) (c : CodePoint) :
    Plain (escapeChar isprintable quote c) := by
  have hslash : isSurrogate (cp '\\') = false := isSurrogate_cp '\\'
  unfold escapeChar
  split_ifs with h1 h2 h3 h4 h5 h6 h7 h8
  · refine Plain.cons hslash (Plain.cons ?_ fun _ hd => absurd hd List.not_mem_nil)
    rcases h1 with rfl | rfl
    · exact hquote
    · exact hslash
  · exact plain_txt _
  · exact plain_txt _
  · exact plain_txt _
  · exact (plain_txt _).append (plain_hexPad 2 c.val)
  · refine Plain.cons ?_ fun _ hd => absurd hd List.not_mem_nil
    rcases h6 with hlow | hprint
    · exact isSurrogate_of_lt (by omega)
    · by_contra hsur
      rw [hsurrogate c (by simpa using hsur)] at hprint
      cases hprint
  · exact (plain_txt _).append (plain_hexPad 2 c.val)
  · exact (plain_txt _).append (plain_hexPad 4 c.val)
  · exact (plain_txt _).append (plain_hexPad 8 c.val)

theorem plain_repr (s : Str) : Plain (repr isprintable s) := by
  have hquote : isSurrogate (quoteOf s) = false := by
    unfold quoteOf
    split
    · exact isSurrogate_cp _
    · exact isSurrogate_cp _
  refine Plain.append (Plain.cons hquote ?_)
    (Plain.cons hquote fun _ hd => absurd hd List.not_mem_nil)
  intro c hc
  obtain ⟨d, -, hd⟩ := List.mem_flatMap.mp hc
  exact plain_escapeChar isprintable hsurrogate hquote d c hd

end Printable

/-- The `repr` of a list of strings. -/
def namesRepr (repr : Str → Str) (names : List Str) : Str :=
  txt "[" ++ (txt ", ").intercalate (names.map repr) ++ txt "]"

/-- `Field(max_length=n)` on a text, which must also be encodable. -/
def fitsField (n : ℕ) (s : Str) : Prop := s.length ≤ n ∧ Plain s

instance (n : ℕ) (s : Str) : Decidable (fitsField n s) := inferInstanceAs (Decidable (_ ∧ _))

/-- A text with `Field(min_length=1, max_length=n)`. -/
structure FieldText (n : ℕ) where
  text : Str
  nonempty : text ≠ []
  fits : fitsField n text
  deriving DecidableEq

def FieldText.strip {n : ℕ} (field : FieldText n) (h : PyStr.strip field.text ≠ []) : FieldText n where
  text := PyStr.strip field.text
  nonempty := h
  fits := ⟨(infix_strip field.text).length_le.trans field.fits.1,
    fun c hc => field.fits.2 c ((infix_strip field.text).subset hc)⟩

end PyRepr
