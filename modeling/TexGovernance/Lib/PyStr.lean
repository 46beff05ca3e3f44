import Mathlib.Data.List.Basic
import Mathlib.Data.List.DropRight
import Mathlib.Data.List.Forall2
import Mathlib.Data.Nat.Notation

/-!
# Python strings and case folding

A `str` is a sequence of code points below `0x110000`; lone surrogates are
ordinary elements of it, which is why `Char` is not used. The character
classes follow the Unicode database of CPython 3.12 (Unicode 15.0).
-/

namespace PyStr

abbrev CodePoint := Fin 0x110000

abbrev Str := List CodePoint

instance codePoint_neZero : @NeZero ℕ Zero.ofOfNat0 0x110000 := ⟨by decide⟩

instance codePoint_lawful : LawfulBEq CodePoint := inferInstance

instance str_lawful : LawfulBEq Str := inferInstance

def cp (c : Char) : CodePoint := Fin.ofNat 0x110000 c.toNat

def lit (cs : List Char) : Str := cs.map cp

def txt (s : String) : Str := s.toList.map cp

theorem char_toNat_lt (c : Char) : c.toNat < 0x110000 := by
  have h : c.val.toNat.isValidChar := c.valid
  unfold Nat.isValidChar at h
  change c.val.toNat < 0x110000
  omega

theorem cp_inj {c d : Char} (h : cp c = cp d) : c = d := by
  have hc := char_toNat_lt c
  have hd := char_toNat_lt d
  have hval := congrArg Fin.val h
  simp only [cp, Fin.ofNat, Nat.mod_eq_of_lt hc, Nat.mod_eq_of_lt hd] at hval
  exact Char.toNat_inj.mp hval

theorem txt_inj {s t : String} : txt s = txt t ↔ s = t := by
  refine ⟨fun h => String.toList_inj.mp ?_, congrArg txt⟩
  exact List.map_injective_iff.mpr (fun _ _ => cp_inj) h

theorem txt_eq_nil_iff {s : String} : txt s = [] ↔ s = "" := txt_inj (t := "")

@[simp] theorem txt_beq (s t : String) : (txt s == txt t) = (s == t) := by
  simp only [beq_eq_beq, txt_inj]

/-- `str` of a count, which has few digits. -/
def natText (n : ℕ) : Str := (Nat.toDigits 10 n).map cp

theorem mem_natText {n : ℕ} {c : CodePoint} (h : c ∈ natText n) : 0x30 ≤ c.val ∧ c.val ≤ 0x39 := by
  obtain ⟨d, hd, rfl⟩ := List.mem_map.mp h
  have hdigit := Nat.isDigit_of_mem_toDigits (by decide) (by decide) hd
  simp only [Char.isDigit, Bool.and_eq_true, decide_eq_true_eq, ge_iff_le,
    UInt32.le_iff_toNat_le] at hdigit
  have hlow : 48 ≤ d.toNat := hdigit.1
  have hhigh : d.toNat ≤ 57 := hdigit.2
  have hval : (cp d).val = d.toNat := Nat.mod_eq_of_lt (by omega)
  omega

def inRanges (rs : List (ℕ × ℕ)) (c : CodePoint) : Bool :=
  rs.any fun r => r.1 ≤ c.val && c.val ≤ r.2

def isspace (c : CodePoint) : Bool :=
  inRanges [(0x9, 0xd), (0x1c, 0x20), (0x85, 0x85), (0xa0, 0xa0), (0x1680, 0x1680),
    (0x2000, 0x200a), (0x2028, 0x2029), (0x202f, 0x202f), (0x205f, 0x205f),
    (0x3000, 0x3000)] c

def decimalZeros : List ℕ :=
  [0x30, 0x660, 0x6f0, 0x7c0, 0x966, 0x9e6, 0xa66, 0xae6, 0xb66, 0xbe6, 0xc66, 0xce6, 0xd66,
    0xde6, 0xe50, 0xed0, 0xf20, 0x1040, 0x1090, 0x17e0, 0x1810, 0x1946, 0x19d0, 0x1a80, 0x1a90,
    0x1b50, 0x1bb0, 0x1c40, 0x1c50, 0xa620, 0xa8d0, 0xa900, 0xa9d0, 0xa9f0, 0xaa50, 0xabf0,
    0xff10, 0x104a0, 0x10d30, 0x11066, 0x110f0, 0x11136, 0x111d0, 0x112f0, 0x11450, 0x114d0,
    0x11650, 0x116c0, 0x11730, 0x118e0, 0x11950, 0x11c50, 0x11d50, 0x11da0, 0x11f50, 0x16a60,
    0x16ac0, 0x16b50, 0x1d7ce, 0x1d7d8, 0x1d7e2, 0x1d7ec, 0x1d7f6, 0x1e140, 0x1e2f0, 0x1e4f0,
    0x1e950, 0x1fbf0]

def decimal? (c : CodePoint) : Option ℕ :=
  (decimalZeros.find? fun z => z ≤ c.val && c.val < z + 10).map fun z => c.val - z

/-- `str.isdigit` on one character: the decimal digits and the digits that
are not decimal (superscripts, circled and parenthesised digits). -/
def isdigitChar (c : CodePoint) : Bool :=
  (decimal? c).isSome ||
    inRanges [(0xb2, 0xb3), (0xb9, 0xb9), (0x1369, 0x1371), (0x19da, 0x19da), (0x2070, 0x2070),
      (0x2074, 0x2079), (0x2080, 0x2089), (0x2460, 0x2468), (0x2474, 0x247c), (0x2488, 0x2490),
      (0x24ea, 0x24ea), (0x24f5, 0x24fd), (0x24ff, 0x24ff), (0x2776, 0x277e), (0x2780, 0x2788),
      (0x278a, 0x2792), (0x10a40, 0x10a43), (0x10e60, 0x10e68), (0x11052, 0x1105a),
      (0x1f100, 0x1f10a)] c

def isdigit (s : Str) : Bool := !s.isEmpty && s.all isdigitChar

def strip (s : Str) : Str := (s.dropWhile isspace).rdropWhile isspace

theorem strip_eq_nil_iff (s : Str) : strip s = [] ↔ ∀ c ∈ s, isspace c = true := by
  unfold strip
  rw [List.rdropWhile_eq_nil_iff]
  constructor
  · intro h c hc
    rw [← List.takeWhile_append_dropWhile (p := isspace) (l := s)] at hc
    rcases List.mem_append.mp hc with hc | hc
    · exact List.mem_takeWhile_imp hc
    · exact h c hc
  · intro h c hc
    exact h c ((List.dropWhile_suffix isspace).subset hc)

theorem strip_strip (s : Str) : strip (strip s) = strip s := by
  have hhead : (strip s).dropWhile isspace = strip s := by
    rw [List.dropWhile_eq_self_iff]
    intro hpos
    have hhead : strip s <+: s.dropWhile isspace := List.rdropWhile_prefix isspace _
    have hlen : 0 < (s.dropWhile isspace).length := lt_of_lt_of_le hpos hhead.length_le
    rw [hhead.getElem hpos]
    exact List.dropWhile_get_zero_not isspace s hlen
  have hlast : (strip s).rdropWhile isspace = strip s := List.rdropWhile_idempotent isspace _
  change ((strip s).dropWhile isspace).rdropWhile isspace = strip s
  rw [hhead, hlast]

theorem infix_strip (s : Str) : strip s <:+: s :=
  (List.rdropWhile_prefix isspace _).isInfix.trans (List.dropWhile_suffix isspace).isInfix

theorem strip_of_noSpace {s : Str} (h : ∀ c ∈ s, isspace c = false) : strip s = s := by
  have hfront : s.dropWhile isspace = s := by
    cases s with
    | nil => rfl
    | cons c s => exact List.dropWhile_cons_of_neg (by rw [h c List.mem_cons_self]; decide)
  have hback : s.rdropWhile isspace = s := by
    rw [List.rdropWhile_eq_self_iff]
    intro hne
    rw [h _ (List.getLast_mem hne)]
    decide
  unfold strip
  rw [hfront, hback]

inductive PyErr where
  | valueError
  | unicodeEncodeError
  | overflowError
  | assertionError
  | other
  deriving DecidableEq, Repr

theorem mapM_ok_iff {ε α β : Type} (f : α → Except ε β) (xs : List α) (ys : List β) :
    xs.mapM f = .ok ys ↔ List.Forall₂ (fun x y => f x = .ok y) xs ys := by
  induction xs generalizing ys with
  | nil =>
    rw [List.mapM_nil, List.forall₂_nil_left_iff]
    exact ⟨fun h => (Except.ok.inj h).symm, fun h => congrArg Except.ok h.symm⟩
  | cons x xs ih =>
    rw [List.mapM_cons]
    cases hx : f x with
    | error e =>
      constructor
      · intro h
        cases h
      · intro h
        cases h with
        | cons hxy _ => rw [hx] at hxy; cases hxy
    | ok y =>
      cases hxs : xs.mapM f with
      | error e =>
        constructor
        · intro h
          cases h
        · intro h
          cases h with
          | cons _ hrest => rw [(ih _).mpr hrest] at hxs; cases hxs
      | ok zs =>
        constructor
        · intro h
          rw [← Except.ok.inj h]
          exact .cons hx ((ih zs).mp hxs)
        · intro h
          cases h with
          | cons hxy hrest =>
            rw [hx] at hxy
            rw [(ih _).mpr hrest] at hxs
            cases hxy
            cases hxs
            rfl

theorem mapM_ok_of_forall {ε α β : Type} {f : α → Except ε β} {xs : List α}
    (h : ∀ x ∈ xs, ∃ y, f x = .ok y) : ∃ ys, xs.mapM f = .ok ys := by
  induction xs with
  | nil => exact ⟨[], rfl⟩
  | cons x xs ih =>
    obtain ⟨y, hy⟩ := h x List.mem_cons_self
    obtain ⟨ys, hys⟩ := ih fun z hz => h z (List.mem_cons_of_mem _ hz)
    exact ⟨y :: ys, by rw [List.mapM_cons, hy, hys]; rfl⟩

theorem ok_of_mapM_ok {ε α β : Type} {f : α → Except ε β} {xs : List α} {ys : List β}
    (h : xs.mapM f = .ok ys) {x : α} (hx : x ∈ xs) : ∃ y, f x = .ok y := by
  have hall := (mapM_ok_iff f xs ys).mp h
  clear h
  induction hall with
  | nil => cases hx
  | cons hxy _ ih =>
    rcases List.mem_cons.mp hx with rfl | hx
    · exact ⟨_, hxy⟩
    · exact ih hx

theorem mem_mapM_ok {ε α β : Type} {f : α → Except ε β} {xs : List α} {ys : List β}
    (h : xs.mapM f = .ok ys) (y : β) : y ∈ ys ↔ ∃ x ∈ xs, f x = .ok y := by
  have hall := (mapM_ok_iff f xs ys).mp h
  clear h
  induction hall with
  | nil => simp
  | cons hxy _ ih =>
    rw [List.mem_cons, List.exists_mem_cons_iff, hxy, Except.ok.injEq, eq_comm]
    exact or_congr_right ih

theorem mapM_some_iff {α β : Type} (f : α → Option β) (xs : List α) (ys : List β) :
    xs.mapM f = some ys ↔ List.Forall₂ (fun x y => f x = some y) xs ys := by
  induction xs generalizing ys with
  | nil =>
    rw [List.mapM_nil, List.forall₂_nil_left_iff]
    exact ⟨fun h => (Option.some.inj h).symm, fun h => congrArg some h.symm⟩
  | cons x xs ih =>
    rw [List.mapM_cons, List.forall₂_cons_left_iff]
    constructor
    · intro h
      obtain ⟨y, hy, h⟩ := Option.bind_eq_some_iff.mp h
      obtain ⟨zs, hzs, h⟩ := Option.bind_eq_some_iff.mp h
      exact ⟨y, zs, hy, (ih zs).mp hzs, (Option.some.inj h).symm⟩
    · rintro ⟨y, zs, hy, hzs, rfl⟩
      rw [hy, (ih zs).mpr hzs]
      rfl

def maxStrDigits : ℕ := 4300

/-- `int` on a string of digits: a digit that is not decimal is refused, and
so are more than `maxStrDigits` digits. -/
def intOfDigits (s : Str) : Except PyErr ℕ :=
  if maxStrDigits < s.length then .error .valueError
  else match s.mapM decimal? with
    | some ds => .ok (ds.foldl (fun acc d => 10 * acc + d) 0)
    | none => .error .valueError

theorem mapM_decimal (s : Str) :
    (∃ ds, s.mapM decimal? = some ds) ↔ (s.all fun c => (decimal? c).isSome) = true := by
  induction s with
  | nil => simp
  | cons c s ih =>
    rw [List.all_cons, Bool.and_eq_true, ← ih, List.mapM_cons]
    constructor
    · rintro ⟨ds, hds⟩
      obtain ⟨d, hd, hds⟩ := Option.bind_eq_some_iff.mp hds
      obtain ⟨es, hes, -⟩ := Option.bind_eq_some_iff.mp hds
      exact ⟨by rw [hd]; rfl, es, hes⟩
    · rintro ⟨hc, es, hes⟩
      obtain ⟨d, hd⟩ := Option.isSome_iff_exists.mp hc
      exact ⟨d :: es, by rw [hd, hes]; rfl⟩

theorem intOfDigits_ok_iff (s : Str) : (∃ n, intOfDigits s = .ok n) ↔
    (s.length ≤ maxStrDigits && s.all fun c => (decimal? c).isSome) = true := by
  rw [Bool.and_eq_true, decide_eq_true_eq, ← mapM_decimal, intOfDigits]
  by_cases hlen : maxStrDigits < s.length
  · rw [if_pos hlen]
    constructor
    · rintro ⟨n, hn⟩
      cases hn
    · rintro ⟨hle, -⟩
      omega
  · rw [if_neg hlen]
    cases hds : s.mapM decimal? with
    | none => simp
    | some ds => simp [Nat.le_of_not_lt hlen]

end PyStr

/-!
## Case folding

`str.casefold` folds a text character by character, and what a character is
folded to is folded already. White space is left alone, so folding and stripping
can change places.
-/

namespace CaseFold
open PyStr

structure CaseFolding where
  char : CodePoint → Str
  space : ∀ c, isspace c = true → char c = [c]
  nonempty : ∀ c, char c ≠ []
  ink : ∀ c, isspace c = false → ∀ d ∈ char c, isspace d = false
  folded : ∀ c, ∀ d ∈ char c, char d = [d]

namespace CaseFolding

variable (fold : CaseFolding)

def casefold (s : Str) : Str := s.flatMap fold.char

@[simp] theorem casefold_nil : fold.casefold [] = [] := rfl

theorem casefold_cons (c : CodePoint) (s : Str) :
    fold.casefold (c :: s) = fold.char c ++ fold.casefold s := rfl

theorem casefold_append (s t : Str) :
    fold.casefold (s ++ t) = fold.casefold s ++ fold.casefold t := List.flatMap_append

theorem casefold_of_folded {s : Str} (h : ∀ d ∈ s, fold.char d = [d]) : fold.casefold s = s := by
  induction s with
  | nil => rfl
  | cons c s ih =>
    obtain ⟨hc, hs⟩ := List.forall_mem_cons.mp h
    rw [casefold_cons, hc, ih hs, List.singleton_append]

theorem casefold_casefold (s : Str) : fold.casefold (fold.casefold s) = fold.casefold s := by
  refine fold.casefold_of_folded fun d hd => ?_
  obtain ⟨c, -, hdc⟩ := List.mem_flatMap.mp hd
  exact fold.folded c d hdc

theorem dropWhile_casefold (s : Str) :
    (fold.casefold s).dropWhile isspace = fold.casefold (s.dropWhile isspace) := by
  induction s with
  | nil => rfl
  | cons c s ih =>
    cases hc : isspace c with
    | true => rw [casefold_cons, fold.space c hc, List.singleton_append,
        List.dropWhile_cons_of_pos hc, List.dropWhile_cons_of_pos hc, ih]
    | false =>
      have hstop : ¬isspace c = true := by rw [hc]; decide
      rw [List.dropWhile_cons_of_neg hstop, casefold_cons]
      cases hchar : fold.char c with
      | nil => exact absurd hchar (fold.nonempty c)
      | cons d t =>
        have hd : ¬isspace d = true := by
          rw [fold.ink c hc d (by rw [hchar]; exact List.mem_cons_self)]
          decide
        rw [List.cons_append, List.dropWhile_cons_of_neg hd]

theorem rdropWhile_casefold (s : Str) :
    (fold.casefold s).rdropWhile isspace = fold.casefold (s.rdropWhile isspace) := by
  induction s using List.reverseRecOn with
  | nil => rfl
  | append_singleton s c ih =>
    have hsingle : fold.casefold [c] = fold.char c := by
      rw [casefold_cons, casefold_nil, List.append_nil]
    cases hc : isspace c with
    | true => rw [casefold_append, hsingle, fold.space c hc, List.rdropWhile_concat_pos _ _ _ hc,
        List.rdropWhile_concat_pos _ _ _ hc, ih]
    | false =>
      have hstop : ¬isspace c = true := by rw [hc]; decide
      rw [List.rdropWhile_concat_neg _ _ _ hstop, casefold_append, hsingle]
      obtain ⟨t, d, htd⟩ : ∃ t d, fold.char c = t ++ [d] :=
        ⟨_, _, (List.dropLast_append_getLast (fold.nonempty c)).symm⟩
      have hd : ¬isspace d = true := by
        rw [fold.ink c hc d (by rw [htd]; exact List.mem_append_right _ (List.mem_singleton_self d))]
        decide
      rw [htd, ← List.append_assoc, List.rdropWhile_concat_neg _ _ _ hd]

theorem strip_casefold (s : Str) : strip (fold.casefold s) = fold.casefold (strip s) := by
  unfold strip
  rw [dropWhile_casefold, rdropWhile_casefold]

/-- Stripped and folded. -/
def clean (s : Str) : Str := fold.casefold (strip s)

theorem clean_clean (s : Str) : fold.clean (fold.clean s) = fold.clean s := by
  unfold clean
  rw [strip_casefold, strip_strip, casefold_casefold]

end CaseFolding

def lowerLetter (c : CodePoint) : CodePoint :=
  if cp 'A' ≤ c ∧ c ≤ cp 'Z' then Fin.ofNat 0x110000 (c.val + 0x20) else c

structure AsciiFolding extends CaseFolding where
  ascii : ∀ c, c.val < 0x80 → char c = [lowerLetter c]

namespace AsciiFolding

variable (fold : AsciiFolding)

theorem casefold_ascii {s : Str} (h : ∀ c ∈ s, c.val < 0x80) : fold.casefold s = s.map lowerLetter := by
  induction s with
  | nil => rfl
  | cons c s ih =>
    obtain ⟨hc, hs⟩ := List.forall_mem_cons.mp h
    rw [CaseFolding.casefold_cons, fold.ascii c hc, ih hs]
    rfl

theorem clean_ascii {s t : Str} (h : ∀ c ∈ s, c.val < 0x80) (hstrip : strip s = s)
    (hlower : s.map lowerLetter = t) : fold.clean s = t := by
  rw [CaseFolding.clean, hstrip, fold.casefold_ascii h, hlower]

end AsciiFolding

def asciiFolding : AsciiFolding where
  char c := [lowerLetter c]
  space c hc := by
    unfold lowerLetter
    refine congrArg (fun d => [d]) (if_neg fun hletter => ?_)
    simp [isspace, inRanges, cp, Fin.le_def] at hc hletter
    omega
  nonempty _ := List.cons_ne_nil _ _
  ink c hc d hd := by
    rw [List.mem_singleton.mp hd]
    unfold lowerLetter
    by_cases h : cp 'A' ≤ c ∧ c ≤ cp 'Z'
    · rw [if_pos h]
      simp [isspace, inRanges, cp, Fin.le_def] at h ⊢
      omega
    · rw [if_neg h]
      exact hc
  folded c d hd := by
    rw [List.mem_singleton.mp hd]
    unfold lowerLetter
    by_cases h : cp 'A' ≤ c ∧ c ≤ cp 'Z'
    · rw [if_pos h, if_neg]
      simp [cp, Fin.le_def] at h ⊢
      omega
    · rw [if_neg h, if_neg h]
  ascii _ _ := rfl

/-- The folding of texts that are folded already. -/
def foldedTexts : CaseFolding where
  char c := [c]
  space _ _ := rfl
  nonempty _ := List.cons_ne_nil _ _
  ink _ hc _ hd := by rwa [List.mem_singleton.mp hd]
  folded _ _ _ := rfl

end CaseFold
