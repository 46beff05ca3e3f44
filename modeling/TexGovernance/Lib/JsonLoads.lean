import TexGovernance.Lib.JsonDoc

/-!
# Reading JSON

`json.loads` of a text, as the scanner of CPython reads it: strict strings,
`NaN` and the infinities, escaped surrogates joined in pairs, and integers of at
most `maxStrDigits` digits. `depth` is what is left of the recursion limit.
-/

namespace JsonLoads
open PyStr PyBytes PyCodec PyJson JsonDoc
open PyRepr (hexPad)

inductive JsonValue where
  | null
  | bool (b : Bool)
  | int (z : ℤ)
  | float (text : Str)
  | str (s : Str)
  | arr (items : List JsonValue)
  | obj (members : List (Str × JsonValue))

abbrev Reader (α : Type) := Str → Except PyErr (α × Str)

def isBlank (c : CodePoint) : Bool := inRanges [(0x20, 0x20), (0x9, 0xa), (0xd, 0xd)] c

def skipBlanks (s : Str) : Str := s.dropWhile isBlank

def expect (c : CodePoint) : Str → Except PyErr Str
  | [] => .error .valueError
  | d :: rest => if d = c then .ok rest else .error .valueError

def escapeLetters : List (CodePoint × CodePoint) :=
  (cp '/', cp '/') :: shortEscapes.map fun e => (e.2, Fin.ofNat 0x110000 e.1)

def readUnits : Reader (List (Bool × CodePoint))
  | [] => .error .valueError
  | c :: rest =>
    if c = cp '\x22' then .ok ([], rest)
    else if c ≠ cp '\x5c' then
      if c.val < 0x20 then .error .valueError
      else do
        let (units, left) ← readUnits rest
        return ((false, c) :: units, left)
    else match rest with
      | [] => .error .valueError
      | d :: rest =>
        if d = cp 'u' then
          match rest with
          | x :: y :: z :: w :: rest =>
            match readHex4 [x, y, z, w] with
            | none => .error .valueError
            | some (n, _) => do
              let (units, left) ← readUnits rest
              return ((true, Fin.ofNat 0x110000 n) :: units, left)
          | _ => .error .valueError
        else
          match escapeLetters.lookup d with
          | none => .error .valueError
          | some e => do
            let (units, left) ← readUnits rest
            return ((false, e) :: units, left)

def isHigh (c : CodePoint) : Bool := inRanges [(0xd800, 0xdbff)] c

def isLow (c : CodePoint) : Bool := inRanges [(0xdc00, 0xdfff)] c

def joinSurrogates (high low : CodePoint) : CodePoint :=
  Fin.ofNat 0x110000 (0x10000 + (high.val - 0xd800) * 0x400 + (low.val - 0xdc00))

def joinPairs : List (Bool × CodePoint) → Str
  | [] => []
  | [u] => [u.2]
  | u :: v :: rest =>
    if u.1 ∧ v.1 ∧ isHigh u.2 ∧ isLow v.2 then joinSurrogates u.2 v.2 :: joinPairs rest
    else u.2 :: joinPairs (v :: rest)

def readString : Reader Str := fun s => do
  let (units, rest) ← readUnits s
  return (joinPairs units, rest)

def isDigit (c : CodePoint) : Bool := inRanges [(0x30, 0x39)] c

def startsDigit : Str → Bool
  | [] => false
  | c :: _ => isDigit c

def splitDigits (s : Str) : Str × Str := (s.takeWhile isDigit, s.dropWhile isDigit)

def integerPart : Str → Option (Str × Str)
  | [] => none
  | c :: rest =>
    if c = cp '0' then some ([c], rest)
    else if isDigit c then some (splitDigits (c :: rest))
    else none

def fractionPart : Str → Str × Str
  | [] => ([], [])
  | c :: rest =>
    if c = cp '.' ∧ startsDigit rest then (c :: (splitDigits rest).1, (splitDigits rest).2)
    else ([], c :: rest)

def signPart : Str → Str × Str
  | [] => ([], [])
  | c :: rest => if c = cp '+' ∨ c = cp '-' then ([c], rest) else ([], c :: rest)

def exponentPart : Str → Str × Str
  | [] => ([], [])
  | c :: rest =>
    let (sign, digits) := signPart rest
    if (c = cp 'e' ∨ c = cp 'E') ∧ startsDigit digits then
      (c :: sign ++ (splitDigits digits).1, (splitDigits digits).2)
    else ([], c :: rest)

def minusPart : Str → Bool × Str
  | [] => (false, [])
  | c :: rest => if c = cp '-' then (true, rest) else (false, c :: rest)

def readNumber : Reader JsonValue := fun s =>
  let (minus, unsigned) := minusPart s
  match integerPart unsigned with
  | none => .error .valueError
  | some (digits, rest) =>
    let (fraction, rest) := fractionPart rest
    let (exponent, rest) := exponentPart rest
    if fraction = [] ∧ exponent = [] then do
      let n ← intOfDigits digits
      return (.int (if minus then -n else n), rest)
    else
      let sign := if minus then txt "-" else []
      .ok (.float (sign ++ digits ++ fraction ++ exponent), rest)

def literals : List (Str × JsonValue) :=
  [(txt "null", .null), (txt "true", .bool true), (txt "false", .bool false),
    (txt "NaN", .float (txt "nan")), (txt "Infinity", .float (txt "inf")),
    (txt "-Infinity", .float (txt "-inf"))]

def readLiteral (s : Str) : Option (JsonValue × Str) :=
  literals.findSome? fun w => if w.1.isPrefixOf s then some (w.2, s.drop w.1.length) else none

def readLeaf : Reader JsonValue
  | [] => .error .valueError
  | c :: rest =>
    if c = cp '\x22' then do
      let (text, rest) ← readString rest
      return (.str text, rest)
    else
      match readLiteral (c :: rest) with
      | some result => .ok result
      | none => readNumber (c :: rest)

def readSequence {α : Type} (item : Reader α) (close : CodePoint) : ℕ → Reader (List α)
  | 0, _ => .error .valueError
  | rounds + 1, s => do
    let (a, rest) ← item s
    match skipBlanks rest with
    | [] => .error .valueError
    | c :: rest =>
      if c = close then return ([a], rest)
      else if c = cp ',' then do
        let (more, rest) ← readSequence item close rounds (skipBlanks rest)
        return (a :: more, rest)
      else .error .valueError

theorem readSequence_succ {α : Type} (item : Reader α) (close : CodePoint) (rounds : ℕ) (s : Str) :
    readSequence item close (rounds + 1) s = (do
      let (a, rest) ← item s
      match skipBlanks rest with
      | [] => .error .valueError
      | c :: rest =>
        if c = close then return ([a], rest)
        else if c = cp ',' then do
          let (more, rest) ← readSequence item close rounds (skipBlanks rest)
          return (a :: more, rest)
        else .error .valueError) := rfl

def readItems {α : Type} (item : Reader α) (close : CodePoint) : Reader (List α) := fun s =>
  match skipBlanks s with
  | [] => .error .valueError
  | c :: rest =>
    if c = close then .ok ([], rest) else readSequence item close (rest.length + 1) (c :: rest)

def readMember (value : Reader JsonValue) : Reader (Str × JsonValue) := fun s => do
  let s ← expect (cp '\x22') s
  let (key, rest) ← readString s
  let rest ← expect (cp ':') (skipBlanks rest)
  let (v, rest) ← value (skipBlanks rest)
  return ((key, v), rest)

def readNested (value : Reader JsonValue) : Reader JsonValue
  | [] => .error .valueError
  | c :: rest =>
    if c = cp '\x7b' then do
      let (members, rest) ← readItems (readMember value) (cp '\x7d') rest
      return (.obj members, rest)
    else if c = cp '[' then do
      let (items, rest) ← readItems value (cp ']') rest
      return (.arr items, rest)
    else readLeaf (c :: rest)

/-- `RecursionError` where the limit is reached. -/
def tooDeep : Reader JsonValue := fun _ => .error .other

def readValue : ℕ → Reader JsonValue
  | 0, s => if s.head? = cp '\x7b' ∨ s.head? = cp '[' then tooDeep s else readLeaf s
  | depth + 1, s => readNested (readValue depth) s

def loads (depth : ℕ) (s : Str) : Except PyErr JsonValue :=
  if s.head? = some (Fin.ofNat 0x110000 0xfeff) then .error .valueError
  else do
    let (value, rest) ← readValue depth (skipBlanks s)
    if skipBlanks rest = [] then return value else .error .valueError

example : loads 1 (lit [' ', '[', '-', '1', '2', ',', ' ', '3', ']']) matches
    .ok (.arr [.int (-12), .int 3]) := by decide

theorem shortEscape_letter : ∀ e ∈ shortEscapes,
    e.2 ≠ cp 'u' ∧ escapeLetters.lookup e.2 = some (Fin.ofNat 0x110000 e.1) := by
  decide

variable {c : CodePoint}

theorem unescaped_of_lookup (h : shortEscapes.lookup c.val = none) :
    c ≠ cp '\x22' ∧ c ≠ cp '\x5c' := by
  constructor
  · rintro rfl
    exact absurd h (by decide)
  · rintro rfl
    exact absurd h (by decide)

theorem readHex4_control : ∀ n, n < 0x20 → readHex4 (hexPad 4 n) = some (n, []) := by
  decide

theorem readUnits_plain (hslash : c ≠ cp '\x5c') (rest : Str) : readUnits (c :: rest) =
    if c = cp '\x22' then .ok ([], rest)
    else if c.val < 0x20 then .error .valueError
    else do
      let (units, left) ← readUnits rest
      return ((false, c) :: units, left) := by
  rw [readUnits.eq_def]
  simp only [if_pos hslash]

theorem readUnits_close (rest : Str) : readUnits (cp '\x22' :: rest) = .ok ([], rest) :=
  (readUnits_plain (by decide) rest).trans (if_pos rfl)

theorem readUnits_char (hquote : c ≠ cp '\x22') (hslash : c ≠ cp '\x5c')
    (hcontrol : ¬c.val < 0x20) {rest left : Str} {units : List (Bool × CodePoint)}
    (hrest : readUnits rest = .ok (units, left)) :
    readUnits (c :: rest) = .ok ((false, c) :: units, left) := by
  rw [readUnits_plain hslash, if_neg hquote, if_neg hcontrol, hrest]
  rfl

theorem readUnits_escape (d : CodePoint) (rest : Str) : readUnits (cp '\x5c' :: d :: rest) =
    if d = cp 'u' then
      match rest with
      | x :: y :: z :: w :: rest =>
        match readHex4 [x, y, z, w] with
        | none => .error .valueError
        | some (n, _) => do
          let (units, left) ← readUnits rest
          return ((true, Fin.ofNat 0x110000 n) :: units, left)
      | _ => .error .valueError
    else
      match escapeLetters.lookup d with
      | none => .error .valueError
      | some e => do
        let (units, left) ← readUnits rest
        return ((false, e) :: units, left) := by
  have hquote : cp '\x5c' ≠ cp '\x22' := by decide
  have hslash : ¬cp '\x5c' ≠ cp '\x5c' := not_not.mpr rfl
  rw [readUnits.eq_def]
  simp only [if_neg hquote, if_neg hslash]
  rfl

theorem readUnits_letter {d e : CodePoint} (hu : d ≠ cp 'u') (hletter : escapeLetters.lookup d = some e)
    {rest left : Str} {units : List (Bool × CodePoint)} (hrest : readUnits rest = .ok (units, left)) :
    readUnits (cp '\x5c' :: d :: rest) = .ok ((false, e) :: units, left) := by
  rw [readUnits_escape, if_neg hu, hletter, hrest]
  rfl

theorem readUnits_code {x y z w : CodePoint} {n : ℕ} (hhex : readHex4 [x, y, z, w] = some (n, []))
    {rest left : Str} {units : List (Bool × CodePoint)} (hrest : readUnits rest = .ok (units, left)) :
    readUnits (cp '\x5c' :: cp 'u' :: x :: y :: z :: w :: rest) =
      .ok ((true, Fin.ofNat 0x110000 n) :: units, left) := by
  rw [readUnits_escape, if_pos rfl]
  simp only [hhex, hrest]
  rfl

theorem readUnits_escapeChar (c : CodePoint) : ∃ escaped : Bool, (escaped = true → c.val < 0x20) ∧
    ∀ rest units left, readUnits rest = .ok (units, left) →
      readUnits (escapeChar c ++ rest) = .ok ((escaped, c) :: units, left) := by
  have hcode : Fin.ofNat 0x110000 c.val = c := Fin.ext (Nat.mod_eq_of_lt c.isLt)
  unfold escapeChar
  cases hlookup : shortEscapes.lookup c.val with
  | some d =>
    obtain ⟨hu, hletter⟩ := shortEscape_letter _ (mem_of_lookup hlookup)
    refine ⟨false, nofun, fun rest units left hrest => ?_⟩
    rw [hcode] at hletter
    exact readUnits_letter hu hletter hrest
  | none =>
    obtain ⟨hquote, hslash⟩ := unescaped_of_lookup hlookup
    by_cases hcontrol : c.val < 0x20
    · refine ⟨true, fun _ => hcontrol, fun rest units left hrest => ?_⟩
      have hhex := readHex4_control c.val hcontrol
      have hread := readUnits_code hhex hrest
      rw [hcode] at hread
      simp only [if_pos hcontrol]
      exact hread
    · refine ⟨false, nofun, fun rest units left hrest => ?_⟩
      simp only [if_neg hcontrol]
      exact readUnits_char hquote hslash hcontrol hrest

theorem isHigh_of_lt (h : c.val < 0x20) : isHigh c = false := by
  simp only [isHigh, inRanges, List.any_cons, List.any_nil, Bool.or_false, Bool.and_eq_false_iff,
    decide_eq_false_iff_not]
  omega

theorem joinPairs_plain (units : List (Bool × CodePoint))
    (h : ∀ u ∈ units, u.1 = true → u.2.val < 0x20) : joinPairs units = units.map Prod.snd := by
  induction units with
  | nil => rfl
  | cons u rest ih =>
    cases rest with
    | nil => rfl
    | cons v rest =>
      obtain ⟨hu, hrest⟩ := List.forall_mem_cons.mp h
      have hsingle : ¬(u.1 ∧ v.1 ∧ isHigh u.2 ∧ isLow v.2) := by
        intro hpair
        have hlow := isHigh_of_lt (hu hpair.1)
        rw [hpair.2.2.1] at hlow
        cases hlow
      rw [joinPairs, if_neg hsingle, ih hrest]
      rfl

theorem readUnits_quoted (s rest : Str) : ∃ units,
    readUnits (s.flatMap escapeChar ++ cp '\x22' :: rest) = .ok (units, rest) ∧
      units.map Prod.snd = s ∧ ∀ u ∈ units, u.1 = true → u.2.val < 0x20 := by
  induction s with
  | nil =>
    refine ⟨[], ?_, rfl, fun _ hu => absurd hu List.not_mem_nil⟩
    exact readUnits_close rest
  | cons c s ih =>
    obtain ⟨units, hread, htext, hplain⟩ := ih
    obtain ⟨escaped, hcontrol, hchar⟩ := readUnits_escapeChar c
    refine ⟨(escaped, c) :: units, ?_, ?_, ?_⟩
    · rw [List.flatMap_cons, List.append_assoc]
      exact hchar _ _ _ hread
    · rw [List.map_cons, htext]
    · exact List.forall_mem_cons.mpr ⟨hcontrol, hplain⟩

theorem readString_quoted (s rest : Str) :
    readString (s.flatMap escapeChar ++ cp '\x22' :: rest) = .ok (s, rest) := by
  obtain ⟨units, hread, htext, hplain⟩ := readUnits_quoted s rest
  unfold readString
  rw [hread]
  change Except.ok (joinPairs units, rest) = _
  rw [joinPairs_plain units hplain, htext]

theorem isDigit_natText {n : ℕ} (h : c ∈ natText n) : isDigit c = true := by
  have hrange := mem_natText h
  simp only [isDigit, inRanges, List.any_cons, List.any_nil, Bool.or_false, Bool.and_eq_true,
    decide_eq_true_eq]
  omega

theorem digits_ne_nil (n : ℕ) : natText n ≠ [] := by
  rw [natText, Ne, List.map_eq_nil_iff]
  exact Nat.toDigits_ne_nil

variable {rest : Str}

theorem natText_head {n : ℕ} (h : natText n = cp '0' :: rest) : n = 0 := by
  induction n using Nat.base_induction 10 (by decide) generalizing rest with
  | single m hm =>
    rw [natText, Nat.toDigits_of_lt_base hm] at h
    interval_cases m
    · rfl
    all_goals exact absurd (List.cons.inj h).1 (by decide)
  | digit m k hk hm ih =>
    rw [natText, ← Nat.toDigits_append_toDigits (by decide) hm hk, List.map_append] at h
    cases hhead : natText m with
    | nil => exact absurd hhead (digits_ne_nil m)
    | cons c t =>
      unfold natText at hhead
      rw [hhead, List.cons_append] at h
      have hzero : m = 0 := ih (by rw [natText, hhead, (List.cons.inj h).1])
      omega

theorem decimal?_digit : ∀ k, k < 10 → decimal? (Fin.ofNat 0x110000 (0x30 + k)) = some k := by
  decide

theorem decimal?_digitChar {d : Char} (h : d.isDigit = true) :
    decimal? (cp d) = some (d.toNat - '0'.toNat) := by
  simp only [Char.isDigit, Bool.and_eq_true, decide_eq_true_eq, ge_iff_le,
    UInt32.le_iff_toNat_le] at h
  have hlow : 48 ≤ d.toNat := h.1
  have hhigh : d.toNat ≤ 57 := h.2
  have hcode : cp d = Fin.ofNat 0x110000 (0x30 + (d.toNat - 48)) := by
    unfold cp
    congr 1
    omega
  rw [hcode]
  exact decimal?_digit _ (by omega)

theorem intOfDigits_natText {n : ℕ} (h : (natText n).length ≤ maxStrDigits) :
    intOfDigits (natText n) = .ok n := by
  have hvalues : (natText n).mapM decimal? =
      some ((Nat.toDigits 10 n).map fun d => d.toNat - '0'.toNat) := by
    rw [mapM_some_iff, natText, List.forall₂_map_left_iff, List.forall₂_map_right_iff,
      List.forall₂_same]
    exact fun d hd => decimal?_digitChar (Nat.isDigit_of_mem_toDigits (by decide) (by decide) hd)
  have hfold : ((Nat.toDigits 10 n).map fun d => d.toNat - '0'.toNat).foldl
      (fun acc d => 10 * acc + d) 0 = n := by
    rw [List.foldl_map]
    exact Nat.ofDigitChars_eq_foldl.symm.trans Nat.ofDigitChars_ten_toDigits
  unfold intOfDigits
  rw [if_neg (by omega), hvalues]
  change Except.ok _ = _
  rw [hfold]

theorem decimalText_ok_iff (n : ℕ) (text : Str) :
    decimalText n = .ok text ↔ (natText n).length ≤ maxStrDigits ∧ text = natText n := by
  unfold decimalText
  change (if maxStrDigits < (natText n).length then Except.error PyErr.valueError
    else .ok (natText n)) = .ok text ↔ _
  split
  · next hlong => exact iff_of_false nofun fun h => by omega
  · next hshort =>
    constructor
    · intro h
      exact ⟨not_lt.mp hshort, (Except.ok.inj h).symm⟩
    · rintro ⟨-, rfl⟩
      rfl

theorem isDigit_iff_range (c : CodePoint) : isDigit c = true ↔ 0x30 ≤ c.val ∧ c.val ≤ 0x39 := by
  simp [isDigit, inRanges]

def digitsValue (s : Str) : ℕ := s.foldl (fun acc c => 10 * acc + (c.val - 0x30)) 0

theorem intOfDigits_ascii {s : Str} (hdigits : ∀ c ∈ s, isDigit c = true) {n : ℕ}
    (h : intOfDigits s = .ok n) : n = digitsValue s := by
  have hvalues : s.mapM decimal? = some (s.map fun c => c.val - 0x30) := by
    rw [mapM_some_iff, List.forall₂_map_right_iff, List.forall₂_same]
    intro c hc
    have hdigit := (isDigit_iff_range c).mp (hdigits c hc)
    have hcode : c = Fin.ofNat 0x110000 (0x30 + (c.val - 0x30)) := by
      apply Fin.ext
      rw [Fin.val_ofNat, Nat.mod_eq_of_lt (by omega)]
      omega
    have hvalue := decimal?_digit (c.val - 0x30) (by omega)
    rw [← hcode] at hvalue
    exact hvalue
  unfold intOfDigits at h
  split at h
  · cases h
  · rw [hvalues] at h
    rw [← Except.ok.inj h, digitsValue, List.foldl_map]

theorem isdigitChar_of_isDigit (h : isDigit c = true) : isdigitChar c = true := by
  have hrange := (isDigit_iff_range c).mp h
  have hcode : c = Fin.ofNat 0x110000 (0x30 + (c.val - 0x30)) := by
    apply Fin.ext
    rw [Fin.val_ofNat, Nat.mod_eq_of_lt (by omega)]
    omega
  unfold isdigitChar
  rw [hcode, decimal?_digit _ (by omega)]
  rfl

theorem natText_digitsValue {s : Str} (hdigits : ∀ c ∈ s, isDigit c = true) (hne : s ≠ [])
    (hhead : s.head? ≠ some (cp '0')) : natText (digitsValue s) = s ∧ 0 < digitsValue s := by
  induction s using List.reverseRecOn with
  | nil => exact absurd rfl hne
  | append_singleton s c ih =>
    have hc := (isDigit_iff_range c).mp
      (hdigits c (List.mem_append_right _ (List.mem_singleton.mpr rfl)))
    have hvalue : digitsValue (s ++ [c]) = 10 * digitsValue s + (c.val - 0x30) := by
      unfold digitsValue
      rw [List.foldl_append]
      rfl
    have hlast : natText (c.val - 0x30) = [c] := by
      have hdigit : ∀ k < 10, natText k = [Fin.ofNat 0x110000 (0x30 + k)] := by decide
      rw [hdigit _ (by omega)]
      congr 1
      apply Fin.ext
      rw [Fin.val_ofNat, Nat.mod_eq_of_lt (by omega)]
      omega
    rw [hvalue]
    cases s with
    | nil =>
      have hzero : c ≠ cp '0' := fun hzero => hhead (by rw [hzero]; rfl)
      have hpos : 0 < c.val - 0x30 := by
        have hval : c.val ≠ 0x30 := fun hval => hzero (Fin.ext hval)
        omega
      rw [show digitsValue [] = 0 from rfl, Nat.mul_zero, Nat.zero_add]
      exact ⟨hlast, hpos⟩
    | cons d s =>
      obtain ⟨htext, hpos⟩ := ih (fun e he => hdigits e (List.mem_append_left _ he))
        (List.cons_ne_nil _ _) hhead
      refine ⟨?_, by omega⟩
      unfold natText at htext hlast ⊢
      rw [← Nat.toDigits_append_toDigits (by decide) hpos (by omega), List.map_append, htext, hlast]

def EndsValue (rest : Str) : Prop := ∃ c t, rest = c :: t ∧ (c = cp ',' ∨ c = cp '\x7d')

theorem EndsValue.noDigit (h : EndsValue rest) : startsDigit rest = false := by
  obtain ⟨c, t, rfl, rfl | rfl⟩ := h
  · rfl
  · rfl

theorem splitDigits_append {digits rest : Str} (hdigits : ∀ c ∈ digits, isDigit c = true)
    (hrest : startsDigit rest = false) : splitDigits (digits ++ rest) = (digits, rest) := by
  unfold splitDigits
  rw [List.takeWhile_append_of_pos hdigits, List.dropWhile_append_of_pos hdigits]
  cases rest with
  | nil => rw [List.takeWhile_nil, List.dropWhile_nil, List.append_nil]
  | cons c t =>
    have hc : ¬isDigit c = true := by
      rw [Bool.not_eq_true]
      exact hrest
    rw [List.takeWhile_cons_of_neg hc, List.dropWhile_cons_of_neg hc, List.append_nil]

theorem integerPart_natText (n : ℕ) (hrest : startsDigit rest = false) :
    integerPart (natText n ++ rest) = some (natText n, rest) := by
  have hsplit := splitDigits_append (fun c hc => isDigit_natText (n := n) hc) hrest
  cases htext : natText n with
  | nil => exact absurd htext (digits_ne_nil n)
  | cons c t =>
    have hc : isDigit c = true := isDigit_natText (n := n) (by rw [htext]; exact List.mem_cons_self)
    rw [htext] at hsplit
    rw [List.cons_append] at hsplit ⊢
    change (if c = cp '0' then some ([c], t ++ rest)
      else if isDigit c then some (splitDigits (c :: (t ++ rest))) else none) = _
    by_cases hzero : c = cp '0'
    · rw [hzero] at htext
      obtain rfl := natText_head htext
      have hnil : t = [] := (List.cons.inj (htext.symm.trans (show natText 0 = [cp '0'] from rfl))).2
      rw [if_pos hzero, hnil, List.nil_append]
    · rw [if_neg hzero, if_pos hc, hsplit]

theorem minusPart_natText (n : ℕ) (rest : Str) :
    minusPart (natText n ++ rest) = (false, natText n ++ rest) := by
  cases htext : natText n with
  | nil => exact absurd htext (digits_ne_nil n)
  | cons c t =>
    have hc : isDigit c = true := isDigit_natText (n := n) (by rw [htext]; exact List.mem_cons_self)
    have hminus : c ≠ cp '-' := by
      rintro rfl
      exact absurd hc (by decide)
    exact if_neg hminus

theorem readNumber_natText {n : ℕ} (hlength : (natText n).length ≤ maxStrDigits)
    (hrest : EndsValue rest) : readNumber (natText n ++ rest) = .ok (.int n, rest) := by
  have hfraction : fractionPart rest = ([], rest) := by
    obtain ⟨c, t, rfl, rfl | rfl⟩ := hrest
    · rfl
    · rfl
  have hexponent : exponentPart rest = ([], rest) := by
    obtain ⟨c, t, rfl, rfl | rfl⟩ := hrest
    · rfl
    · rfl
  unfold readNumber
  simp only [minusPart_natText, integerPart_natText n hrest.noDigit, hfraction, hexponent,
    intOfDigits_natText hlength]
  rfl

def valueOf : Scalar → JsonValue
  | .null => .null
  | .count n => .int n
  | .str s => .str s

/-- The integers have no more digits than `int` takes. -/
def Short : Scalar → Prop
  | .count n => (natText n).length ≤ maxStrDigits
  | _ => True

theorem skipBlanks_cons (h : isBlank c = false) (rest : Str) :
    skipBlanks (c :: rest) = c :: rest := by
  unfold skipBlanks
  rw [List.dropWhile_cons_of_neg (by rw [h]; decide)]

theorem writeScalar_head (v : Scalar) : ∃ c t, writeScalar v = c :: t ∧
    (c = cp 'n' ∨ c = cp '\x22' ∨ isDigit c = true) := by
  cases v with
  | null => exact ⟨_, _, rfl, .inl rfl⟩
  | str s => exact ⟨_, _, rfl, .inr (.inl rfl)⟩
  | count n =>
    change ∃ c t, natText n = c :: t ∧ _
    cases htext : natText n with
    | nil => exact absurd htext (digits_ne_nil n)
    | cons c t =>
      refine ⟨c, t, rfl, .inr (.inr (isDigit_natText (n := n) ?_))⟩
      rw [htext]
      exact List.mem_cons_self

theorem digit_cases (h : c = cp 'n' ∨ c = cp '\x22' ∨ isDigit c = true) :
    isBlank c = false ∧ c ≠ cp '\x7b' ∧ c ≠ cp '[' := by
  rcases h with rfl | rfl | h
  · decide
  · decide
  · simp only [isDigit, inRanges, List.any_cons, List.any_nil, Bool.or_false, Bool.and_eq_true,
      decide_eq_true_eq] at h
    refine ⟨?_, ?_, ?_⟩
    · simp only [isBlank, inRanges, List.any_cons, List.any_nil, Bool.or_false, Bool.or_eq_false_iff,
        Bool.and_eq_false_iff, decide_eq_false_iff_not]
      omega
    · rintro rfl
      exact absurd h.2 (by decide)
    · rintro rfl
      exact absurd h.2 (by decide)

theorem readLiteral_digit (h : isDigit c = true) (rest : Str) :
    readLiteral (c :: rest) = none := by
  have hletters : ∀ w ∈ literals.map Prod.fst, ∃ d u, w = d :: u ∧ isDigit d = false := by
    simp [literals, txt]
    decide
  unfold readLiteral
  rw [List.findSome?_eq_none_iff]
  intro w hw
  obtain ⟨d, u, htext, hd⟩ := hletters w.1 (List.mem_map_of_mem hw)
  have hne : (d == c) = false := by
    rw [beq_eq_false_iff_ne]
    rintro rfl
    rw [h] at hd
    cases hd
  rw [htext, List.isPrefixOf, hne]
  rfl

theorem readLeaf_writeScalar {v : Scalar} (hshort : Short v) (hrest : EndsValue rest) :
    readLeaf (writeScalar v ++ rest) = .ok (valueOf v, rest) := by
  cases v with
  | null => rfl
  | str s =>
    have hread := readString_quoted s rest
    have hsplit : writeScalar (.str s) ++ rest =
        cp '\x22' :: (s.flatMap escapeChar ++ cp '\x22' :: rest) := by
      simp only [writeScalar, quoted, List.cons_append, List.append_assoc, List.nil_append]
    rw [hsplit, readLeaf, if_pos rfl, hread]
    rfl
  | count n =>
    have hread := readNumber_natText hshort hrest
    change readLeaf (natText n ++ rest) = _
    cases htext : natText n with
    | nil => exact absurd htext (digits_ne_nil n)
    | cons c t =>
      have hc : isDigit c = true := isDigit_natText (n := n) (by rw [htext]; exact List.mem_cons_self)
      have hquote : c ≠ cp '\x22' := by
        rintro rfl
        exact absurd hc (by decide)
      rw [htext, List.cons_append] at hread
      rw [List.cons_append, readLeaf, if_neg hquote, readLiteral_digit hc]
      exact hread

theorem readValue_writeScalar (depth : ℕ) {v : Scalar} (hshort : Short v)
    (hrest : EndsValue rest) : readValue depth (writeScalar v ++ rest) = .ok (valueOf v, rest) := by
  have hleaf := readLeaf_writeScalar hshort hrest
  obtain ⟨c, t, htext, hc⟩ := writeScalar_head v
  obtain ⟨-, hbrace, hbracket⟩ := digit_cases hc
  rw [htext, List.cons_append] at hleaf ⊢
  cases depth with
  | zero =>
    have hflat : ¬((c :: (t ++ rest)).head? = cp '\x7b' ∨ (c :: (t ++ rest)).head? = cp '[') := by
      rw [List.head?_cons, Option.some_inj, Option.some_inj]
      exact not_or.mpr ⟨hbrace, hbracket⟩
    rw [readValue, if_neg hflat]
    exact hleaf
  | succ depth =>
    rw [readValue, readNested, if_neg hbrace, if_neg hbracket]
    exact hleaf

theorem readMember_writeMember (depth : ℕ) {m : Str × Scalar} (hshort : Short m.2)
    (hrest : EndsValue rest) :
    readMember (readValue depth) (writeMember m ++ rest) = .ok ((m.1, valueOf m.2), rest) := by
  obtain ⟨k, v⟩ := m
  have hsplit : writeMember (k, v) ++ rest =
      cp '\x22' :: (k.flatMap escapeChar ++ cp '\x22' :: cp ':' :: (writeScalar v ++ rest)) := by
    simp only [writeMember, quoted, List.cons_append, List.append_assoc, List.nil_append]
  have hvalue := readValue_writeScalar depth hshort hrest
  have hcolon : skipBlanks (cp ':' :: (writeScalar v ++ rest)) = cp ':' :: (writeScalar v ++ rest) :=
    skipBlanks_cons (by decide) _
  have hblanks : skipBlanks (writeScalar v ++ rest) = writeScalar v ++ rest := by
    obtain ⟨c, t, htext, hc⟩ := writeScalar_head v
    rw [htext]
    exact skipBlanks_cons (digit_cases hc).1 _
  rw [hsplit]
  unfold readMember
  simp only [expect, if_true, bind, Except.bind, readString_quoted, hcolon, hblanks, hvalue]
  rfl

theorem endsValue_writeMembers (members : List (Str × Scalar)) (rest : Str) :
    EndsValue (writeMembers members ++ rest) := by
  cases members with
  | nil => exact ⟨_, _, rfl, .inr rfl⟩
  | cons m more => exact ⟨_, _, rfl, .inl rfl⟩

theorem readSequence_writeMembers (depth : ℕ) (rest : Str) (members : List (Str × Scalar)) :
    ∀ (m : Str × Scalar) (rounds : ℕ), (∀ m' ∈ m :: members, Short m'.2) → members.length < rounds →
      readSequence (readMember (readValue depth)) (cp '\x7d') rounds
          (writeMember m ++ (writeMembers members ++ rest)) =
        .ok ((m :: members).map fun m' => (m'.1, valueOf m'.2), rest) := by
  induction members with
  | nil =>
    intro m rounds hshort hrounds
    obtain ⟨rounds, rfl⟩ := Nat.exists_eq_succ_of_ne_zero (by omega : rounds ≠ 0)
    have hmember := readMember_writeMember depth (hshort m List.mem_cons_self)
      (endsValue_writeMembers [] rest)
    rw [readSequence_succ, hmember]
    rfl
  | cons next members ih =>
    intro m rounds hshort hrounds
    obtain ⟨hm, hmore⟩ := List.forall_mem_cons.mp hshort
    obtain ⟨rounds, rfl⟩ := Nat.exists_eq_succ_of_ne_zero (by omega : rounds ≠ 0)
    have hmember := readMember_writeMember depth hm (endsValue_writeMembers (next :: members) rest)
    have hcomma : skipBlanks (writeMembers (next :: members) ++ rest) =
        cp ',' :: (writeMember next ++ (writeMembers members ++ rest)) := by
      rw [← List.append_assoc]
      exact skipBlanks_cons (by decide) _
    have hquote : skipBlanks (writeMember next ++ (writeMembers members ++ rest)) =
        writeMember next ++ (writeMembers members ++ rest) :=
      skipBlanks_cons (by decide) _
    have hseq := ih next rounds hmore (by rw [List.length_cons] at hrounds; omega)
    have hclose : cp ',' ≠ cp '\x7d' := by decide
    rw [readSequence_succ, hmember]
    simp only [bind, Except.bind, hcomma, if_neg hclose, if_true, hquote, hseq]
    rfl

theorem length_writeMembers (members : List (Str × Scalar)) :
    members.length < (writeMembers members).length := by
  induction members with
  | nil => exact Nat.one_pos
  | cons m more ih =>
    rw [writeMembers, List.length_cons, List.length_cons, List.length_append]
    omega

theorem readValue_writeObject (depth : ℕ) (m : Str × Scalar) (members : List (Str × Scalar))
    (hshort : ∀ m' ∈ m :: members, Short m'.2) :
    readValue (depth + 1) (writeObject (m :: members)) =
      .ok (.obj ((m :: members).map fun m' => (m'.1, valueOf m'.2)), []) := by
  have hseq := readSequence_writeMembers depth [] members m
    (writeMember m ++ writeMembers members).length hshort (by
      have hlength := length_writeMembers members
      rw [List.length_append]
      omega)
  rw [List.append_nil] at hseq
  have hblanks : skipBlanks (writeMember m ++ writeMembers members) =
      writeMember m ++ writeMembers members := skipBlanks_cons (by decide) _
  have hitems : readItems (readMember (readValue depth)) (cp '\x7d')
      (writeMember m ++ writeMembers members) = .ok ((m :: members).map fun m' =>
        (m'.1, valueOf m'.2), []) := by
    unfold readItems
    rw [hblanks]
    exact hseq
  rw [readValue, writeObject, readNested, if_pos rfl, hitems]
  rfl

theorem loads_writeObject (depth : ℕ) {members : List (Str × Scalar)} (hne : members ≠ [])
    (hshort : ∀ m ∈ members, Short m.2) :
    loads (depth + 1) (writeObject members) =
      .ok (.obj (members.map fun m => (m.1, valueOf m.2))) := by
  cases members with
  | nil => exact absurd rfl hne
  | cons m members =>
    have hobject := readValue_writeObject depth m members hshort
    have hblanks : skipBlanks (writeObject (m :: members)) = writeObject (m :: members) :=
      skipBlanks_cons (by decide) _
    have hmark : (writeObject (m :: members)).head? ≠ some (Fin.ofNat 0x110000 0xfeff) := by
      change some (cp '\x7b') ≠ _
      decide
    unfold loads
    rw [if_neg hmark, hblanks, hobject]
    rfl

def ShortInt : JsonValue → Prop
  | .int z => (natText z.natAbs).length ≤ maxStrDigits
  | _ => True

def ShortMembers : JsonValue → Prop
  | .obj members => ∀ m ∈ members, ShortInt m.2
  | _ => True

def IsLeaf : JsonValue → Prop
  | .int z => (natText z.natAbs).length ≤ maxStrDigits
  | .arr _ => False
  | .obj _ => False
  | _ => True

theorem IsLeaf.short {v : JsonValue} (h : IsLeaf v) : ShortInt v ∧ ShortMembers v := by
  cases v with
  | int z => exact ⟨h, trivial⟩
  | arr _ => exact absurd h id
  | obj _ => exact absurd h id
  | _ => exact ⟨trivial, trivial⟩

theorem decimal?_lt {d : ℕ} (h : decimal? c = some d) : d < 10 := by
  obtain ⟨z, hz, rfl⟩ := Option.map_eq_some_iff.mp h
  have hrange := List.find?_some hz
  simp only [Bool.and_eq_true, decide_eq_true_eq] at hrange
  omega

theorem foldl_digits_lt (ds : List ℕ) (h : ∀ d ∈ ds, d < 10) (acc k : ℕ) (hacc : acc < 10 ^ k) :
    ds.foldl (fun acc d => 10 * acc + d) acc < 10 ^ (k + ds.length) := by
  induction ds generalizing acc k with
  | nil => exact hacc
  | cons d ds ih =>
    obtain ⟨hd, hds⟩ := List.forall_mem_cons.mp h
    have hnext : 10 * acc + d < 10 ^ (k + 1) := by
      rw [Nat.pow_succ]
      omega
    have hrest := ih hds (10 * acc + d) (k + 1) hnext
    rw [List.foldl_cons, List.length_cons, show k + (ds.length + 1) = k + 1 + ds.length by omega]
    exact hrest

theorem short_intOfDigits {digits : Str} {n : ℕ} (h : intOfDigits digits = .ok n) :
    (natText n).length ≤ maxStrDigits := by
  unfold intOfDigits at h
  split at h
  · cases h
  · next hlength =>
    split at h
    · next ds hds =>
      rw [mapM_some_iff] at hds
      have hdigits : ∀ d ∈ ds, d < 10 := by
        intro d hd
        obtain ⟨i, hi, rfl⟩ := List.getElem_of_mem hd
        exact decimal?_lt ((List.forall₂_iff_get.mp hds).2 i (by rw [hds.length_eq]; exact hi) hi)
      have hvalue := foldl_digits_lt ds hdigits 0 0 (by decide)
      have hpos : 0 < maxStrDigits := by decide
      rw [Nat.zero_add] at hvalue
      rw [← Except.ok.inj h, natText, List.length_map,
        Nat.length_toDigits_le_iff (by decide) hpos]
      refine lt_of_lt_of_le hvalue (Nat.pow_le_pow_right (by decide) ?_)
      rw [← hds.length_eq]
      omega
    · cases h

theorem isLeaf_readNumber {s rest : Str} {v : JsonValue} (h : readNumber s = .ok (v, rest)) :
    IsLeaf v := by
  unfold readNumber at h
  simp only at h
  split at h
  · cases h
  · split at h
    · next digits _ _ _ =>
      cases hn : intOfDigits digits with
      | error e =>
        rw [hn] at h
        cases h
      | ok n =>
        rw [hn] at h
        cases h
        have hshort := short_intOfDigits hn
        split
        · rw [IsLeaf, Int.natAbs_neg, Int.natAbs_natCast]
          exact hshort
        · rw [IsLeaf, Int.natAbs_natCast]
          exact hshort
    · cases h
      trivial

theorem isLeaf_readLeaf {s rest : Str} {v : JsonValue} (h : readLeaf s = .ok (v, rest)) :
    IsLeaf v := by
  cases s with
  | nil => cases h
  | cons c s =>
    rw [readLeaf] at h
    split at h
    · cases hstring : readString s with
      | error e =>
        rw [hstring] at h
        cases h
      | ok found =>
        rw [hstring] at h
        cases h
        trivial
    · cases hliteral : readLiteral (c :: s) with
      | some found =>
        rw [hliteral] at h
        obtain ⟨w, hw, hfound⟩ := List.exists_of_findSome?_eq_some hliteral
        have hshort : IsLeaf w.2 := by
          revert hw
          simp only [literals, List.mem_cons, List.not_mem_nil, or_false]
          rintro (rfl | rfl | rfl | rfl | rfl | rfl) <;> trivial
        split at hfound
        · cases hfound
          cases h
          exact hshort
        · cases hfound
      | none =>
        rw [hliteral] at h
        exact isLeaf_readNumber h

theorem readSequence_forall {α : Type} {P : α → Prop} {item : Reader α} {close : CodePoint}
    (hitem : ∀ s a rest, item s = .ok (a, rest) → P a) (rounds : ℕ) :
    ∀ s found rest, readSequence item close rounds s = .ok (found, rest) → ∀ a ∈ found, P a := by
  induction rounds with
  | zero => exact fun s found rest h => nomatch h
  | succ rounds ih =>
    intro s found rest h
    rw [readSequence_succ] at h
    cases ha : item s with
    | error e =>
      rw [ha] at h
      cases h
    | ok first =>
      obtain ⟨a, left⟩ := first
      rw [ha] at h
      simp only [bind, Except.bind] at h
      split at h
      · cases h
      · next c tail _ =>
        split at h
        · cases h
          exact List.forall_mem_singleton.mpr (hitem s a left ha)
        · split at h
          · cases hmore : readSequence item close rounds (skipBlanks tail) with
            | error e =>
              rw [hmore] at h
              cases h
            | ok more =>
              rw [hmore] at h
              cases h
              exact List.forall_mem_cons.mpr ⟨hitem s a left ha, ih _ more.1 more.2 hmore⟩
          · cases h

theorem readItems_forall {α : Type} {P : α → Prop} {item : Reader α} {close : CodePoint}
    (hitem : ∀ s a rest, item s = .ok (a, rest) → P a) {s rest : Str} {found : List α}
    (h : readItems item close s = .ok (found, rest)) : ∀ a ∈ found, P a := by
  unfold readItems at h
  split at h
  · cases h
  · split at h
    · cases h
      exact fun a ha => absurd ha List.not_mem_nil
    · exact readSequence_forall hitem _ _ _ _ h

theorem shortInt_readMember {value : Reader JsonValue}
    (hvalue : ∀ s v rest, value s = .ok (v, rest) → ShortInt v) (s : Str) (m : Str × JsonValue)
    (rest : Str) (h : readMember value s = .ok (m, rest)) : ShortInt m.2 := by
  unfold readMember at h
  simp only [bind, Except.bind] at h
  split at h
  · cases h
  · split at h
    · cases h
    · split at h
      · cases h
      · split at h
        · cases h
        · next found hfound =>
          cases h
          exact hvalue _ found.1 found.2 hfound

theorem short_readValue (depth : ℕ) : ∀ s v rest, readValue depth s = .ok (v, rest) →
    ShortInt v ∧ ShortMembers v := by
  induction depth with
  | zero =>
    intro s v rest h
    rw [readValue] at h
    split at h
    · cases h
    · exact (isLeaf_readLeaf h).short
  | succ depth ih =>
    intro s v rest h
    rw [readValue] at h
    cases s with
    | nil => cases h
    | cons c s =>
      rw [readNested] at h
      split at h
      · cases hitems : readItems (readMember (readValue depth)) (cp '\x7d') s with
        | error e =>
          rw [hitems] at h
          cases h
        | ok found =>
          rw [hitems] at h
          cases h
          exact ⟨trivial, readItems_forall
            (shortInt_readMember fun s v rest h => (ih s v rest h).1) hitems⟩
      · split at h
        · cases hitems : readItems (readValue depth) (cp ']') s with
          | error e =>
            rw [hitems] at h
            cases h
          | ok found =>
            rw [hitems] at h
            cases h
            exact ⟨trivial, trivial⟩
        · exact (isLeaf_readLeaf h).short

theorem shortMembers_loads {depth : ℕ} {s : Str} {v : JsonValue} (h : loads depth s = .ok v) :
    ShortMembers v := by
  unfold loads at h
  split at h
  · cases h
  · cases hvalue : readValue depth (skipBlanks s) with
    | error e =>
      rw [hvalue] at h
      cases h
    | ok found =>
      rw [hvalue] at h
      simp only [bind, Except.bind] at h
      split at h
      · cases h
        exact (short_readValue depth _ found.1 found.2 hvalue).2
      · cases h

end JsonLoads
