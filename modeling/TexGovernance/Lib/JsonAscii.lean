import TexGovernance.Lib.JsonText
import TexGovernance.Lib.Pipeline

/-!
# JSON texts in ASCII

`json.dumps` with `ensure_ascii`: code units that are not printable ASCII are escaped by their
number.
-/

namespace JsonText
open PyStr PyBytes PyCodec PyJson JsonDoc JsonLoads
open PyRepr (hexPad isSurrogate Plain)

def tagged (u : CodeUnit) : Bool × CodePoint :=
  ((shortEscapes.lookup u.val).isNone && !(0x20 ≤ u.val && u.val ≤ 0x7e), Fin.ofNat 0x110000 u.val)

theorem readHex4_hex {n : ℕ} (h : n < 0x10000) : ∃ x y z w,
    hex [byte (n / 256), byte (n % 256)] = [x, y, z, w] ∧ readHex4 [x, y, z, w] = some (n, []) := by
  have hhi : (byte (n / 256)).val = n / 256 := byte_val _ (by omega)
  have hlo : (byte (n % 256)).val = n % 256 := byte_val _ (by omega)
  refine ⟨_, _, _, _, rfl, ?_⟩
  rw [hhi, hlo]
  simp only [readHex4, hexValue?_hexDigit _ (by omega : n / 256 / 16 < 16),
    hexValue?_hexDigit _ (by omega : n / 256 % 16 < 16), hexValue?_hexDigit _ (by omega : n % 256 / 16 < 16),
    hexValue?_hexDigit _ (by omega : n % 256 % 16 < 16)]
  show some (_, _) = some (n, _)
  congr 2
  omega

theorem readUnits_escapeUnit (u : CodeUnit) {rest left : Str} {units : List (Bool × CodePoint)}
    (hrest : readUnits rest = .ok (units, left)) :
    readUnits (escapeUnit u ++ rest) = .ok (tagged u :: units, left) := by
  unfold escapeUnit tagged
  cases hlookup : shortEscapes.lookup u.val with
  | some d =>
    obtain ⟨hu, hletter⟩ := shortEscape_letter _ (mem_of_lookup hlookup)
    exact readUnits_letter hu hletter hrest
  | none =>
    by_cases hprint : 0x20 ≤ u.val ∧ u.val ≤ 0x7e
    · have hval : (Fin.ofNat 0x110000 u.val).val = u.val := Nat.mod_eq_of_lt (by omega)
      have hlookup' : shortEscapes.lookup (Fin.ofNat 0x110000 u.val).val = none := by
        rw [hval]
        exact hlookup
      obtain ⟨hquote, hslash⟩ := unescaped_of_lookup hlookup'
      simp only [hprint.1, hprint.2, decide_true, Bool.and_self, Bool.not_true,
        Bool.and_false]
      exact readUnits_char hquote hslash (by rw [hval]; omega) hrest
    · obtain ⟨x, y, z, w, htext, hhex⟩ := readHex4_hex u.isLt
      have hcode : (!(decide (0x20 ≤ u.val) && decide (u.val ≤ 0x7e))) = true := by
        rw [Bool.not_eq_true', Bool.and_eq_false_iff, decide_eq_false_iff_not, decide_eq_false_iff_not]
        omega
      simp only [if_neg hprint, htext, hcode, Option.isNone_none, Bool.and_self]
      exact readUnits_code hhex hrest

theorem readUnits_units (us : List CodeUnit) (rest : Str) :
    readUnits (us.flatMap escapeUnit ++ cp '\x22' :: rest) = .ok (us.map tagged, rest) := by
  induction us with
  | nil => exact readUnits_close rest
  | cons u us ih =>
    rw [List.flatMap_cons, List.append_assoc]
    exact readUnits_escapeUnit u ih

/-- `ensure_ascii=True`. -/
def asciiOnly : Quoting where
  quote s := PyJson.quote (utf16 s)
  back s := joinPairs ((utf16 s).map tagged)
  reads s := by
    refine ⟨(utf16 s).flatMap escapeUnit ++ [cp '\x22'], rfl, fun rest => ?_⟩
    rw [List.append_assoc]
    show (readUnits ((utf16 s).flatMap escapeUnit ++ cp '\x22' :: rest) >>= _) = _
    rw [readUnits_units]
    rfl

theorem joinPairs_skip {u : Bool × CodePoint} (h : isHigh u.2 = false) (rest : List (Bool × CodePoint)) :
    joinPairs (u :: rest) = u.2 :: joinPairs rest := by
  cases rest with
  | nil => rfl
  | cons v rest =>
    rw [joinPairs, if_neg]
    rw [h]
    simp

theorem tagged_surrogate {u : CodeUnit} (h : 0xd800 ≤ u.val) :
    tagged u = (true, Fin.ofNat 0x110000 u.val) := by
  have hlookup : shortEscapes.lookup u.val = none := by
    cases hfound : shortEscapes.lookup u.val with
    | none => rfl
    | some d =>
      have hmem := mem_of_lookup hfound
      simp only [shortEscapes, List.mem_cons, Prod.mk.injEq, List.not_mem_nil, or_false] at hmem
      omega
  have hcode : (!(decide (0x20 ≤ u.val) && decide (u.val ≤ 0x7e))) = true := by
    rw [Bool.not_eq_true', Bool.and_eq_false_iff, decide_eq_false_iff_not, decide_eq_false_iff_not]
    omega
  simp only [tagged, hlookup, hcode, Option.isNone_none, Bool.and_self]

theorem joinSurrogates_val {high low : CodePoint} (hhigh : high.val ≤ 0xdbff) (hlow : low.val ≤ 0xdfff) :
    (joinSurrogates high low).val = 0x10000 + (high.val - 0xd800) * 0x400 + (low.val - 0xdc00) :=
  Nat.mod_eq_of_lt (by omega)

theorem back_cons {c : CodePoint} (h : isSurrogate c = false) (s : Str) :
    asciiOnly.back (c :: s) = c :: asciiOnly.back s := by
  have hrange : c.val < 0xd800 ∨ 0xdfff < c.val := by
    simp only [isSurrogate, inRanges, List.any_cons, List.any_nil, Bool.or_false, Bool.and_eq_false_iff,
      decide_eq_false_iff_not] at h
    omega
  have hcode : Fin.ofNat 0x110000 c.val = c := Fin.ext (Nat.mod_eq_of_lt c.isLt)
  show joinPairs ((unitsOf c ++ utf16 s).map tagged) = _
  unfold unitsOf
  by_cases hsmall : c.val < 0x10000
  · have hval : (Fin.ofNat 0x10000 c.val).val = c.val := Nat.mod_eq_of_lt hsmall
    rw [if_pos hsmall, List.singleton_append, List.map_cons, joinPairs_skip]
    · simp only [tagged, hval, hcode]
      rfl
    · simp only [tagged, hval, hcode, isHigh, inRanges, List.any_cons, List.any_nil, Bool.or_false,
        Bool.and_eq_false_iff, decide_eq_false_iff_not]
      omega
  · have hbound := c.isLt
    generalize hhigh : 0xd800 + (c.val - 0x10000) / 0x400 = high
    generalize hlow : 0xdc00 + (c.val - 0x10000) % 0x400 = low
    have hhighVal : (Fin.ofNat 0x10000 high).val = high := Nat.mod_eq_of_lt (by omega)
    have hlowVal : (Fin.ofNat 0x10000 low).val = low := Nat.mod_eq_of_lt (by omega)
    have hhighCode : (Fin.ofNat 0x110000 high).val = high := Nat.mod_eq_of_lt (by omega)
    have hlowCode : (Fin.ofNat 0x110000 low).val = low := Nat.mod_eq_of_lt (by omega)
    rw [if_neg hsmall, List.cons_append, List.singleton_append, List.map_cons, List.map_cons,
      tagged_surrogate (by rw [hhighVal]; omega), tagged_surrogate (by rw [hlowVal]; omega), hhighVal,
      hlowVal, joinPairs, if_pos]
    · refine congrArg₂ List.cons (Fin.ext ?_) rfl
      rw [joinSurrogates_val (by rw [hhighCode]; omega) (by rw [hlowCode]; omega), hhighCode, hlowCode]
      omega
    · refine ⟨rfl, rfl, ?_, ?_⟩
      · simp only [isHigh, inRanges, List.any_cons, List.any_nil, Bool.or_false, Bool.and_eq_true,
          decide_eq_true_eq, hhighCode]
        omega
      · simp only [isLow, inRanges, List.any_cons, List.any_nil, Bool.or_false, Bool.and_eq_true,
          decide_eq_true_eq, hlowCode]
        omega

theorem back_of_plain {s : Str} (h : Plain s) : asciiOnly.back s = s := by
  induction s with
  | nil => rfl
  | cons c s ih =>
    obtain ⟨hc, hs⟩ := List.forall_mem_cons.mp h
    rw [back_cons hc, ih hs]

theorem joinPairs_narrow_iff (us : List (Bool × CodePoint)) :
    (∀ c ∈ joinPairs us, c.val < 0x80) ↔ ∀ u ∈ us, u.2.val < 0x80 := by
  induction us using joinPairs.induct with
  | case1 => exact iff_of_true (List.forall_mem_nil _) (List.forall_mem_nil _)
  | case2 u => simp [joinPairs]
  | case3 u v rest hpair ih =>
    obtain ⟨-, -, hhigh, hlow⟩ := id hpair
    simp only [isHigh, isLow, inRanges, List.any_cons, List.any_nil, Bool.or_false, Bool.and_eq_true,
      decide_eq_true_eq] at hhigh hlow
    have hjoined := joinSurrogates_val hhigh.2 hlow.2
    rw [joinPairs, if_pos hpair, List.forall_mem_cons, List.forall_mem_cons]
    refine iff_of_false (fun h => ?_) fun h => ?_
    · have hfirst := h.1
      omega
    · have hfirst := h.1
      omega
  | case4 u v rest hpair ih =>
    rw [joinPairs, if_neg hpair, List.forall_mem_cons, List.forall_mem_cons, ih]

theorem utf16_narrow_iff (s : Str) : (∀ u ∈ utf16 s, u.val < 0x80) ↔ ∀ c ∈ s, c.val < 0x80 := by
  have hunits : ∀ c : CodePoint, (∀ u ∈ unitsOf c, u.val < 0x80) ↔ c.val < 0x80 := by
    intro c
    have hbound := c.isLt
    unfold unitsOf
    split
    · next hsmall =>
      have hval : (Fin.ofNat 0x10000 c.val).val = c.val := Nat.mod_eq_of_lt hsmall
      rw [List.forall_mem_singleton, hval]
    · next hbig =>
      have hval : (Fin.ofNat 0x10000 (0xd800 + (c.val - 0x10000) / 0x400)).val =
          0xd800 + (c.val - 0x10000) / 0x400 := Nat.mod_eq_of_lt (by omega)
      refine iff_of_false (fun h => ?_) (by omega)
      have hfirst := h _ List.mem_cons_self
      rw [hval] at hfirst
      omega
  unfold utf16
  rw [List.forall_mem_flatMap]
  exact forall₂_congr fun c _ => hunits c

theorem back_narrow_iff (s : Str) : (∀ c ∈ asciiOnly.back s, c.val < 0x80) ↔ ∀ c ∈ s, c.val < 0x80 := by
  have hval : ∀ u : CodeUnit, (tagged u).2.val = u.val := fun u => Nat.mod_eq_of_lt (by omega)
  show (∀ c ∈ joinPairs ((utf16 s).map tagged), c.val < 0x80) ↔ _
  rw [joinPairs_narrow_iff, List.forall_mem_map, ← utf16_narrow_iff]
  simp only [hval]

def wideChars (s : Str) : ℕ := s.countP fun c => 0x7f ≤ c.val

theorem escapeUnit_narrow {c : CodePoint} (h : c.val < 0x7f) :
    escapeUnit (Fin.ofNat 0x10000 c.val) = escapeChar c := by
  have hall : ∀ n < 0x7f, escapeUnit (Fin.ofNat 0x10000 n) = escapeChar (Fin.ofNat 0x110000 n) := by
    decide
  have hcode : Fin.ofNat 0x110000 c.val = c := Fin.ext (Nat.mod_eq_of_lt c.isLt)
  rw [hall c.val h, hcode]

theorem length_escapeUnit_wide {u : CodeUnit} (h : 0x7f ≤ u.val) : (escapeUnit u).length = 6 := by
  unfold escapeUnit
  cases hlookup : shortEscapes.lookup u.val with
  | some d =>
    have hmem := mem_of_lookup hlookup
    simp only [shortEscapes, List.mem_cons, Prod.mk.injEq, List.not_mem_nil, or_false] at hmem
    omega
  | none =>
    obtain ⟨x, y, z, w, htext, -⟩ := readHex4_hex u.isLt
    simp only [if_neg (show ¬(0x20 ≤ u.val ∧ u.val ≤ 0x7e) by omega), htext, List.length_cons,
      List.length_nil]

theorem utf16_narrow {s : Str} (h : wideChars s = 0) :
    (utf16 s).flatMap escapeUnit = s.flatMap escapeChar := by
  induction s with
  | nil => rfl
  | cons c s ih =>
    rw [wideChars, List.countP_eq_zero, List.forall_mem_cons] at h
    have hc : c.val < 0x7f := by simpa using h.1
    have hunits : unitsOf c = [Fin.ofNat 0x10000 c.val] := if_pos (by omega)
    rw [utf16, List.flatMap_cons, hunits, List.singleton_append, List.flatMap_cons, List.flatMap_cons,
      escapeUnit_narrow hc]
    exact congrArg _ (ih (List.countP_eq_zero.mpr h.2))

theorem length_units_wide (s : Str) :
    (s.flatMap escapeChar).length + wideChars s ≤ ((utf16 s).flatMap escapeUnit).length := by
  induction s with
  | nil => exact Nat.le_refl 0
  | cons c s ih =>
    have hsplit : (utf16 (c :: s)).flatMap escapeUnit =
        (unitsOf c).flatMap escapeUnit ++ (utf16 s).flatMap escapeUnit := by
      rw [utf16, List.flatMap_cons, List.flatMap_append]
      rfl
    rw [hsplit, List.flatMap_cons, List.length_append, List.length_append, wideChars, List.countP_cons]
    change _ + (wideChars s + _) ≤ _
    by_cases hc : 0x7f ≤ c.val
    · have hwide : 6 ≤ ((unitsOf c).flatMap escapeUnit).length := by
        unfold unitsOf
        split
        · next hsmall =>
          have hval : (Fin.ofNat 0x10000 c.val).val = c.val := Nat.mod_eq_of_lt hsmall
          rw [List.flatMap_singleton, length_escapeUnit_wide (by rw [hval]; exact hc)]
        · next hbig =>
          have hbound := c.isLt
          have hval : (Fin.ofNat 0x10000 (0xd800 + (c.val - 0x10000) / 0x400)).val =
              0xd800 + (c.val - 0x10000) / 0x400 := Nat.mod_eq_of_lt (by omega)
          rw [List.flatMap_cons, List.length_append, length_escapeUnit_wide (by rw [hval]; omega)]
          omega
      rw [escapeChar_wide hc, if_pos (decide_eq_true hc), List.length_singleton]
      omega
    · have hunits : unitsOf c = [Fin.ofNat 0x10000 c.val] := if_pos (by omega)
      rw [hunits, List.flatMap_singleton, escapeUnit_narrow (by omega), if_neg (by simpa using hc)]
      omega

theorem quote_narrow {s : Str} (h : wideChars s = 0) : asciiOnly.quote s = keepChars.quote s := by
  show cp '\x22' :: (utf16 s).flatMap escapeUnit ++ [cp '\x22'] = cp '\x22' :: s.flatMap escapeChar ++ _
  rw [utf16_narrow h]

theorem length_quote_wide (s : Str) :
    (keepChars.quote s).length + wideChars s ≤ (asciiOnly.quote s).length := by
  have hunits := length_units_wide s
  show (cp '\x22' :: s.flatMap escapeChar ++ [cp '\x22']).length + _ ≤
    (cp '\x22' :: (utf16 s).flatMap escapeUnit ++ [cp '\x22']).length
  simp only [List.length_append, List.length_cons, List.length_nil]
  omega

mutual

def wide : JsonValue → ℕ
  | .str s => wideChars s
  | .arr items => wideItems items
  | .obj members => wideMembers members
  | _ => 0

def wideItems : List JsonValue → ℕ
  | [] => 0
  | x :: xs => wide x + wideItems xs

def wideMembers : List (Str × JsonValue) → ℕ
  | [] => 0
  | (k, x) :: xs => wideChars k + wide x + wideMembers xs

end

mutual

theorem write_narrow : ∀ v : JsonValue, wide v = 0 → write asciiOnly v = write keepChars v
  | .null, _ => rfl
  | .bool true, _ => rfl
  | .bool false, _ => rfl
  | .int _, _ => rfl
  | .float _, _ => rfl
  | .str _, h => quote_narrow h
  | .arr [], _ => rfl
  | .arr (x :: xs), h => by
    obtain ⟨hx, hxs⟩ := Nat.add_eq_zero_iff.mp h
    rw [write, write, write_narrow x hx, writeItems_narrow xs hxs]
  | .obj [], _ => rfl
  | .obj ((k, x) :: xs), h => by
    obtain ⟨hkx, hxs⟩ := Nat.add_eq_zero_iff.mp h
    obtain ⟨hk, hx⟩ := Nat.add_eq_zero_iff.mp hkx
    rw [write, write, quote_narrow hk, write_narrow x hx, writeMembers_narrow xs hxs]

theorem writeItems_narrow : ∀ xs : List JsonValue, wideItems xs = 0 →
    writeItems asciiOnly xs = writeItems keepChars xs
  | [], _ => rfl
  | x :: xs, h => by
    obtain ⟨hx, hxs⟩ := Nat.add_eq_zero_iff.mp h
    rw [writeItems, writeItems, write_narrow x hx, writeItems_narrow xs hxs]

theorem writeMembers_narrow : ∀ xs : List (Str × JsonValue), wideMembers xs = 0 →
    writeMembers asciiOnly xs = writeMembers keepChars xs
  | [], _ => rfl
  | (k, x) :: xs, h => by
    obtain ⟨hkx, hxs⟩ := Nat.add_eq_zero_iff.mp h
    obtain ⟨hk, hx⟩ := Nat.add_eq_zero_iff.mp hkx
    rw [writeMembers, writeMembers, quote_narrow hk, write_narrow x hx, writeMembers_narrow xs hxs]

end

mutual

theorem length_write_wide : ∀ v : JsonValue,
    (write keepChars v).length + wide v ≤ (write asciiOnly v).length
  | .null => Nat.le_refl _
  | .bool true => Nat.le_refl _
  | .bool false => Nat.le_refl _
  | .int _ => Nat.le_refl _
  | .float _ => Nat.le_refl _
  | .str s => length_quote_wide s
  | .arr [] => Nat.le_refl _
  | .arr (x :: xs) => by
    have hx := length_write_wide x
    have hxs := length_writeItems_wide xs
    simp only [write, wide, wideItems, List.length_cons, List.length_append]
    omega
  | .obj [] => Nat.le_refl _
  | .obj ((k, x) :: xs) => by
    have hk := length_quote_wide k
    have hx := length_write_wide x
    have hxs := length_writeMembers_wide xs
    simp only [write, wide, wideMembers, List.length_cons, List.length_append]
    omega

theorem length_writeItems_wide : ∀ xs : List JsonValue,
    (writeItems keepChars xs).length + wideItems xs ≤ (writeItems asciiOnly xs).length
  | [] => Nat.le_refl _
  | x :: xs => by
    have hx := length_write_wide x
    have hxs := length_writeItems_wide xs
    simp only [writeItems, wideItems, List.length_cons, List.length_append]
    omega

theorem length_writeMembers_wide : ∀ xs : List (Str × JsonValue),
    (writeMembers keepChars xs).length + wideMembers xs ≤ (writeMembers asciiOnly xs).length
  | [] => Nat.le_refl _
  | (k, x) :: xs => by
    have hk := length_quote_wide k
    have hx := length_write_wide x
    have hxs := length_writeMembers_wide xs
    simp only [writeMembers, wideMembers, List.length_cons, List.length_append]
    omega

end

def Visible (s : Str) : Prop := ∀ c ∈ s, 0x20 ≤ c.val ∧ c.val < 0x7f

theorem visible_nil : Visible [] := List.forall_mem_nil _

theorem visible_cons {c : CodePoint} {s : Str} (hc : 0x20 ≤ c.val ∧ c.val < 0x7f) (hs : Visible s) :
    Visible (c :: s) :=
  List.forall_mem_cons.mpr ⟨hc, hs⟩

theorem visible_append {s t : Str} (hs : Visible s) (ht : Visible t) : Visible (s ++ t) :=
  List.forall_mem_append.mpr ⟨hs, ht⟩

theorem visible_of_all {s : Str} (h : (s.all fun c => decide (0x20 ≤ c.val ∧ c.val < 0x7f)) = true) :
    Visible s :=
  fun c hc => of_decide_eq_true (List.all_eq_true.mp h c hc)

theorem visible_escapeUnit (u : CodeUnit) : Visible (escapeUnit u) := by
  have hletters : ∀ e ∈ shortEscapes, 0x20 ≤ e.2.val ∧ e.2.val < 0x7f := by decide
  have hhex : ∀ n < 16, 0x20 ≤ (hexDigit n).val ∧ (hexDigit n).val < 0x7f := by decide
  unfold escapeUnit
  cases hlookup : shortEscapes.lookup u.val with
  | some c => exact visible_cons (by decide) (visible_cons (hletters _ (mem_of_lookup hlookup)) visible_nil)
  | none =>
    by_cases hprint : 0x20 ≤ u.val ∧ u.val ≤ 0x7e
    · have hval : (Fin.ofNat 0x110000 u.val).val = u.val := Nat.mod_eq_of_lt (by omega)
      simp only [if_pos hprint]
      exact visible_cons (by rw [hval]; omega) visible_nil
    · have hfirst := (byte (u.val / 256)).isLt
      have hsecond := (byte (u.val % 256)).isLt
      simp only [if_neg hprint]
      refine visible_cons (by decide) (visible_cons (by decide) (visible_cons (hhex _ ?_)
        (visible_cons (hhex _ ?_) (visible_cons (hhex _ ?_) (visible_cons (hhex _ ?_) visible_nil)))))
      all_goals omega

theorem visible_hex (bs : Bytes) : Visible (hex bs) := by
  have hhex : ∀ n < 16, 0x20 ≤ (hexDigit n).val ∧ (hexDigit n).val < 0x7f := by decide
  induction bs with
  | nil => exact visible_nil
  | cons b bs ih => exact visible_cons (hhex _ (by omega)) (visible_cons (hhex _ (by omega)) ih)

theorem visible_quote (s : Str) : Visible (asciiOnly.quote s) := by
  refine visible_cons (by decide) (visible_append ?_ (visible_cons (by decide) visible_nil))
  intro c hc
  obtain ⟨u, -, hu⟩ := List.mem_flatMap.mp hc
  exact visible_escapeUnit u c hu

theorem visible_natText (n : ℕ) : Visible (natText n) := by
  intro c hc
  have hrange := mem_natText hc
  omega

theorem visible_intDigits (z : ℤ) : Visible (intDigits z) := by
  unfold intDigits
  split
  · exact visible_cons (by decide) (visible_natText _)
  · exact visible_natText _

theorem visible_digits (s : Str) : Visible (splitDigits s).1 := by
  intro c hc
  have hdigit : isDigit c = true := List.mem_takeWhile_imp hc
  simp only [isDigit, inRanges, List.any_cons, List.any_nil, Bool.or_false, Bool.and_eq_true,
    decide_eq_true_eq] at hdigit
  omega

theorem visible_integerPart {s digits rest : Str} (h : integerPart s = some (digits, rest)) :
    Visible digits := by
  cases s with
  | nil => cases h
  | cons c s =>
    simp only [integerPart] at h
    split at h
    · next hzero =>
      obtain rfl : [c] = digits := congrArg Prod.fst (Option.some.inj h)
      rw [hzero]
      exact visible_of_all (by decide)
    · split at h
      · obtain rfl : (splitDigits (c :: s)).1 = digits := congrArg Prod.fst (Option.some.inj h)
        exact visible_digits _
      · cases h

theorem visible_fractionPart (s : Str) : Visible (fractionPart s).1 := by
  cases s with
  | nil => exact visible_nil
  | cons c s =>
    simp only [fractionPart]
    split
    · next hdot =>
      rw [hdot.1]
      exact visible_cons (by decide) (visible_digits s)
    · exact visible_nil

theorem visible_signPart (s : Str) : Visible (signPart s).1 := by
  cases s with
  | nil => exact visible_nil
  | cons c s =>
    simp only [signPart]
    split
    · next hsign =>
      rcases hsign with rfl | rfl
      · exact visible_cons (by decide) visible_nil
      · exact visible_cons (by decide) visible_nil
    · exact visible_nil

theorem visible_exponentPart (s : Str) : Visible (exponentPart s).1 := by
  cases s with
  | nil => exact visible_nil
  | cons c s =>
    simp only [exponentPart]
    split
    · next hletter =>
      have hc : 0x20 ≤ c.val ∧ c.val < 0x7f := by
        rcases hletter.1 with rfl | rfl
        · decide
        · decide
      exact visible_append (visible_cons hc (visible_signPart s)) (visible_digits _)
    · exact visible_nil

theorem visible_readNumber {s text rest : Str} (h : readNumber s = .ok (.float text, rest)) :
    Visible text := by
  unfold readNumber at h
  dsimp only at h
  split at h
  · cases h
  · next digits left hdigits =>
    split at h
    · obtain ⟨n, -, hn⟩ := Pipeline.bind_ok h
      cases hn
    · cases h
      refine visible_append (visible_append (visible_append ?_ (visible_integerPart hdigits))
        (visible_fractionPart _)) (visible_exponentPart _)
      split
      · exact visible_of_all (by decide)
      · exact visible_nil

theorem visible_literals : ∀ w ∈ literals, ∀ text, w.2 = .float text → Visible (floatText text) := by
  intro w hw text htext
  simp only [literals, List.mem_cons, List.not_mem_nil, or_false] at hw
  rcases hw with rfl | rfl | rfl | rfl | rfl | rfl <;> cases htext
  · exact visible_of_all (by decide)
  · exact visible_of_all (by decide)
  · exact visible_of_all (by decide)

theorem ReadsBack.visible {text : Str} (h : ReadsBack text) : Visible (floatText text) := by
  have hread := h [] ends_nil
  rw [List.append_nil] at hread
  unfold readLeaf at hread
  split at hread
  · cases hread
  · next c t hsplit =>
    split at hread
    · obtain ⟨r, -, hr⟩ := Pipeline.bind_ok hread
      cases hr
    · split at hread
      · next result hliteral =>
        cases hread
        obtain ⟨w, hw, hfound⟩ := List.exists_of_findSome?_eq_some hliteral
        split at hfound
        · exact visible_literals w hw text (congrArg Prod.fst (Option.some.inj hfound))
        · cases hfound
      · have htext := visible_readNumber hread
        unfold floatText
        split
        · exact visible_of_all (by decide)
        · split
          · exact visible_of_all (by decide)
          · split
            · exact visible_of_all (by decide)
            · exact htext

theorem visible_tailText {α : Type} {text : α → Str} {close : CodePoint}
    (hclose : 0x20 ≤ close.val ∧ close.val < 0x7f) {as : List α} (h : ∀ a ∈ as, Visible (text a)) :
    Visible (tailText text close as) := by
  induction as with
  | nil => exact visible_cons hclose visible_nil
  | cons a as ih =>
    obtain ⟨ha, has⟩ := List.forall_mem_cons.mp h
    exact visible_cons (by decide) (visible_append ha (ih has))

theorem Tame.visible {depth : ℕ} {v : JsonValue} (h : Tame depth v) : Visible (write asciiOnly v) := by
  induction h with
  | null => exact visible_of_all (by decide)
  | bool b =>
    cases b with
    | false => exact visible_of_all (by decide)
    | true => exact visible_of_all (by decide)
  | int _ => exact visible_intDigits _
  | float h => exact h.visible
  | str s => exact visible_quote s
  | @arr depth items _ ih =>
    cases items with
    | nil => exact visible_of_all (by decide)
    | cons x xs =>
      obtain ⟨hx, hxs⟩ := List.forall_mem_cons.mp ih
      rw [write, writeItems_eq]
      exact visible_cons (by decide) (visible_append hx (visible_tailText (by decide) hxs))
  | @obj depth members _ ih =>
    cases members with
    | nil => exact visible_of_all (by decide)
    | cons m ms =>
      have hmember : ∀ m' : Str × JsonValue, Visible (write asciiOnly m'.2) →
          Visible (memberText asciiOnly m') := fun m' hm' =>
        visible_append (visible_quote m'.1) (visible_cons (by decide) hm')
      obtain ⟨hm, hms⟩ := List.forall_mem_cons.mp ih
      rw [write, writeMembers_eq]
      refine visible_cons (by decide) (visible_append (visible_quote _) (visible_cons (by decide)
        (visible_append hm (visible_tailText (by decide) fun m' hm' => hmember m' (hms m' hm')))))

end JsonText
