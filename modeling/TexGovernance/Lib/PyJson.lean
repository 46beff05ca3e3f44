import TexGovernance.Lib.Pipeline
import TexGovernance.Lib.PyBytes
import Mathlib.Data.List.Sort

/-!
# JSON text

`json.dumps` with `sort_keys=True`, compact separators, ASCII output and
`default=str`. A Python object is first brought to a JSON value, with sorted
keys and its strings in UTF-16, and the value is then written out.
-/

namespace PyJson
open PyStr PyBytes PyCodec Pipeline

abbrev CodeUnit := Fin 0x10000

def isNumberChar (c : CodePoint) : Bool :=
  inRanges [(0x30, 0x39), (0x2b, 0x2b), (0x2d, 0x2e), (0x49, 0x49), (0x4e, 0x4e), (0x61, 0x61),
    (0x65, 0x66), (0x69, 0x69), (0x6e, 0x6e), (0x74, 0x74), (0x79, 0x79)] c

def startsNumber (c : CodePoint) : Bool :=
  inRanges [(0x30, 0x39), (0x2d, 0x2d), (0x49, 0x49), (0x4e, 0x4e)] c

def isNumberText : Str → Bool
  | [] => false
  | c :: rest => startsNumber c && (c :: rest).all isNumberChar

/-- The text of an integer or of a float, `NaN`, `Infinity` and `-Infinity`
included. -/
abbrev NumberText := { s : Str // isNumberText s = true }

inductive Json where
  | null
  | bool (b : Bool)
  | num (text : NumberText)
  | str (units : List CodeUnit)
  | arr (items : List Json)
  | obj (members : List (List CodeUnit × Json))

/-- A Python object as the encoder sees it: `other` is an object with no JSON
form, given by its `str`. -/
inductive PyObj where
  | none
  | bool (b : Bool)
  | int (z : ℤ)
  | float (text : NumberText)
  | str (s : Str)
  | list (items : List PyObj)
  | tuple (items : List PyObj)
  | dict (items : List (Str × PyObj))
  | other (text : Str)

def unitsOf (c : CodePoint) : List CodeUnit :=
  if c.val < 0x10000 then [Fin.ofNat 0x10000 c.val]
  else
    [Fin.ofNat 0x10000 (0xd800 + (c.val - 0x10000) / 0x400),
      Fin.ofNat 0x10000 (0xdc00 + (c.val - 0x10000) % 0x400)]

def utf16 (s : Str) : List CodeUnit := s.flatMap unitsOf

def intText (z : ℤ) : Except PyErr Str := do
  let digits ← decimalText z.natAbs
  return if z < 0 then cp '-' :: digits else digits

def strLe : Str → Str → Bool
  | [], _ => true
  | _ :: _, [] => false
  | c :: s, d :: t => c < d || (c == d && strLe s t)

theorem strLe_total (s t : Str) : strLe s t = true ∨ strLe t s = true := by
  induction s generalizing t with
  | nil => exact .inl rfl
  | cons c s ih =>
    cases t with
    | nil => exact .inr rfl
    | cons d t =>
      simp only [strLe, Bool.or_eq_true, Bool.and_eq_true, decide_eq_true_eq, beq_iff_eq]
      rcases lt_trichotomy c d with h | rfl | h
      · exact .inl (.inl h)
      · exact (ih t).imp (fun h => .inr ⟨rfl, h⟩) fun h => .inr ⟨rfl, h⟩
      · exact .inr (.inl h)

theorem strLe_antisymm {s t : Str} (hst : strLe s t = true) (hts : strLe t s = true) : s = t := by
  induction s generalizing t with
  | nil =>
    cases t with
    | nil => rfl
    | cons d t => cases hts
  | cons c s ih =>
    cases t with
    | nil => cases hst
    | cons d t =>
      simp only [strLe, Bool.or_eq_true, Bool.and_eq_true, decide_eq_true_eq, beq_iff_eq] at hst hts
      rcases hst with hlt | ⟨rfl, hst⟩
      · rcases hts with hgt | ⟨heq, -⟩
        · exact absurd hgt hlt.asymm
        · exact absurd hlt (heq ▸ lt_irrefl _)
      · rcases hts with hgt | ⟨-, hts⟩
        · exact absurd hgt (lt_irrefl _)
        · rw [ih hst hts]

theorem strLe_trans {s t u : Str} (hst : strLe s t = true) (htu : strLe t u = true) :
    strLe s u = true := by
  induction s generalizing t u with
  | nil => rfl
  | cons c s ih =>
    cases t with
    | nil => cases hst
    | cons d t =>
      cases u with
      | nil => cases htu
      | cons e u =>
        simp only [strLe, Bool.or_eq_true, Bool.and_eq_true, decide_eq_true_eq, beq_iff_eq]
          at hst htu ⊢
        rcases hst with hlt | ⟨rfl, hst⟩
        · rcases htu with hlt' | ⟨rfl, -⟩
          · exact .inl (hlt.trans hlt')
          · exact .inl hlt
        · exact htu.imp_right fun ⟨heq, htu⟩ => ⟨heq, ih hst htu⟩

/-- `sorted` of a collection of strings. -/
def sortedNames (names : List Str) : List Str := names.insertionSort fun a b => strLe a b = true

theorem sortedNames_eq_of_perm {names names' : List Str} (h : names.Perm names') :
    sortedNames names = sortedNames names' := by
  have : Std.Total fun a b : Str => strLe a b = true := ⟨strLe_total⟩
  have : IsTrans Str fun a b => strLe a b = true := ⟨fun _ _ _ => strLe_trans⟩
  have hperm : (sortedNames names).Perm (sortedNames names') :=
    (List.perm_insertionSort _ _).trans (h.trans (List.perm_insertionSort _ _).symm)
  refine hperm.eq_of_pairwise (fun a b _ _ => strLe_antisymm) ?_ ?_
  · exact List.pairwise_insertionSort _ _
  · exact List.pairwise_insertionSort _ _

def sortKeys (members : List (Str × Json)) : List (List CodeUnit × Json) :=
  (members.insertionSort fun a b => strLe a.1 b.1 = true).map fun m => (utf16 m.1, m.2)

theorem intText_isNumberText {z : ℤ} {s : Str} (h : intText z = .ok s) : isNumberText s = true := by
  have hdigit : ∀ c : CodePoint, 0x30 ≤ c.val ∧ c.val ≤ 0x39 →
      startsNumber c = true ∧ isNumberChar c = true := by
    intro c hc
    simp [startsNumber, isNumberChar, inRanges, hc.1, hc.2]
  unfold intText at h
  obtain ⟨digits, hdigits, hs⟩ := bind_ok h
  obtain ⟨hne, hall⟩ := decimalText_digits hdigits
  have hchars : digits.all isNumberChar = true := by
    rw [List.all_eq_true]
    exact fun c hc => (hdigit c (hall c hc)).2
  rw [← Except.ok.inj hs]
  by_cases hneg : z < 0
  · rw [if_pos hneg]
    show (true && (true && digits.all isNumberChar)) = true
    rw [hchars]
    rfl
  · rw [if_neg hneg]
    cases digits with
    | nil => exact absurd rfl hne
    | cons c rest =>
      show (startsNumber c && (c :: rest).all isNumberChar) = true
      rw [hchars, (hdigit c (hall c (List.mem_cons_self ..))).1]
      rfl

mutual

def toJson : PyObj → Except PyErr Json
  | .none => .ok .null
  | .bool b => .ok (.bool b)
  | .int z =>
    match h : intText z with
    | .ok text => .ok (.num ⟨text, intText_isNumberText h⟩)
    | .error e => .error e
  | .float text => .ok (.num text)
  | .str s => .ok (.str (utf16 s))
  | .list items => do
    let values ← toJsonItems items
    return .arr values
  | .tuple items => do
    let values ← toJsonItems items
    return .arr values
  | .dict items => do
    let members ← toJsonMembers items
    return .obj (sortKeys members)
  | .other text => .ok (.str (utf16 text))

def toJsonItems : List PyObj → Except PyErr (List Json)
  | [] => .ok []
  | x :: xs => do
    let value ← toJson x
    let values ← toJsonItems xs
    return value :: values

def toJsonMembers : List (Str × PyObj) → Except PyErr (List (Str × Json))
  | [] => .ok []
  | (k, x) :: xs => do
    let value ← toJson x
    let members ← toJsonMembers xs
    return (k, value) :: members

end

def shortEscapes : List (ℕ × CodePoint) :=
  [(0x22, cp '\x22'), (0x5c, cp '\x5c'), (0xa, cp 'n'), (0xd, cp 'r'), (0x9, cp 't'), (0xc, cp 'f'),
    (0x8, cp 'b')]

def escapeUnit (u : CodeUnit) : Str :=
  match shortEscapes.lookup u.val with
  | some c => [cp '\x5c', c]
  | none =>
    if 0x20 ≤ u.val ∧ u.val ≤ 0x7e then [Fin.ofNat 0x110000 u.val]
    else cp '\x5c' :: cp 'u' :: hex [byte (u.val / 256), byte (u.val % 256)]

def quote (units : List CodeUnit) : Str := cp '\x22' :: units.flatMap escapeUnit ++ [cp '\x22']

mutual

def render : Json → Str
  | .null => txt "null"
  | .bool true => txt "true"
  | .bool false => txt "false"
  | .num text => text.val
  | .str units => quote units
  | .arr [] => txt "[]"
  | .arr (x :: xs) => cp '[' :: (render x ++ renderItems xs)
  | .obj [] => [cp '\x7b', cp '\x7d']
  | .obj ((k, x) :: xs) => cp '\x7b' :: (quote k ++ cp ':' :: (render x ++ renderMembers xs))

def renderItems : List Json → Str
  | [] => [cp ']']
  | x :: xs => cp ',' :: (render x ++ renderItems xs)

def renderMembers : List (List CodeUnit × Json) → Str
  | [] => [cp '\x7d']
  | (k, x) :: xs => cp ',' :: (quote k ++ cp ':' :: (render x ++ renderMembers xs))

end

def dumps (x : PyObj) : Except PyErr Str := do
  let value ← toJson x
  return render value

theorem mem_of_lookup {n : ℕ} {c : CodePoint} {table : List (ℕ × CodePoint)}
    (h : table.lookup n = some c) : (n, c) ∈ table := by
  obtain ⟨l₁, l₂, rfl, -⟩ := List.lookup_eq_some_iff.mp h
  exact List.mem_append_right _ (List.mem_cons_self ..)

theorem escapeUnit_cases (u : CodeUnit) :
    (∃ c, (u.val, c) ∈ shortEscapes ∧ escapeUnit u = [cp '\x5c', c]) ∨
    (u.val ≠ 0x22 ∧ u.val ≠ 0x5c ∧ u.val ≤ 0x7e ∧ escapeUnit u = [Fin.ofNat 0x110000 u.val]) ∨
    escapeUnit u = cp '\x5c' :: cp 'u' :: hex [byte (u.val / 256), byte (u.val % 256)] := by
  unfold escapeUnit
  cases hlookup : shortEscapes.lookup u.val with
  | some c => exact .inl ⟨c, mem_of_lookup hlookup, rfl⟩
  | none =>
    by_cases hprint : 0x20 ≤ u.val ∧ u.val ≤ 0x7e
    · refine .inr (.inl ⟨?_, ?_, hprint.2, if_pos hprint⟩)
      · intro hu
        rw [hu] at hlookup
        cases hlookup
      · intro hu
        rw [hu] at hlookup
        cases hlookup
    · exact .inr (.inr (if_neg hprint))

def readHex4 : Str → Option (ℕ × Str)
  | x :: y :: z :: w :: rest => do
    let x ← hexValue? x
    let y ← hexValue? y
    let z ← hexValue? z
    let w ← hexValue? w
    return (((x * 16 + y) * 16 + z) * 16 + w, rest)
  | _ => none

def unescape : Str → Option (ℕ × Str)
  | [] => none
  | c :: rest =>
    if c.val ≠ 0x5c then some (c.val, rest)
    else match rest with
      | [] => none
      | d :: rest =>
        match shortEscapes.find? (fun e => e.2 = d) with
        | some e => some (e.1, rest)
        | none => readHex4 rest

theorem shortEscapes_back : ∀ e ∈ shortEscapes,
    shortEscapes.find? (fun e' => e'.2 = e.2) = some e ∧ e.2.val < 0x80 := by
  decide

theorem unescape_hex (n : ℕ) (h : n < 0x10000) (rest : Str) :
    unescape (cp '\x5c' :: cp 'u' :: hex [byte (n / 256), byte (n % 256)] ++ rest) =
      some (n, rest) := by
  have hhi : (byte (n / 256)).val = n / 256 := byte_val _ (by omega)
  have hlo : (byte (n % 256)).val = n % 256 := byte_val _ (by omega)
  have hvalue : ((n / 256 / 16 * 16 + n / 256 % 16) * 16 + n % 256 / 16) * 16 + n % 256 % 16 = n := by
    omega
  simp only [hex, hhi, hlo, List.cons_append, List.nil_append]
  show (do
    let x ← hexValue? (hexDigit (n / 256 / 16))
    let y ← hexValue? (hexDigit (n / 256 % 16))
    let z ← hexValue? (hexDigit (n % 256 / 16))
    let w ← hexValue? (hexDigit (n % 256 % 16))
    return (((x * 16 + y) * 16 + z) * 16 + w, rest)) = some (n, rest)
  rw [hexValue?_hexDigit _ (by omega), hexValue?_hexDigit _ (by omega),
    hexValue?_hexDigit _ (by omega), hexValue?_hexDigit _ (by omega)]
  show some (_, rest) = some (n, rest)
  rw [hvalue]

theorem unescape_escapeUnit (u : CodeUnit) (rest : Str) :
    unescape (escapeUnit u ++ rest) = some (u.val, rest) := by
  rcases escapeUnit_cases u with ⟨c, hmem, hu⟩ | ⟨-, hslash, hle, hu⟩ | hu
  · rw [hu]
    show (match shortEscapes.find? (fun e => e.2 = c) with
      | some e => some (e.1, rest)
      | none => readHex4 rest) = _
    rw [(shortEscapes_back _ hmem).1]
  · have hval : (Fin.ofNat 0x110000 u.val).val = u.val := Nat.mod_eq_of_lt (by omega)
    rw [hu]
    show (if (Fin.ofNat 0x110000 u.val).val ≠ 0x5c then _ else _) = _
    rw [hval, if_pos hslash]
    rfl
  · rw [hu]
    exact unescape_hex u.val u.isLt rest

theorem escapeUnit_head (u : CodeUnit) : ∃ c s, escapeUnit u = c :: s ∧ c ≠ cp '\x22' := by
  rcases escapeUnit_cases u with ⟨c, -, hu⟩ | ⟨hquote, -, hle, hu⟩ | hu
  · exact ⟨_, _, hu, by decide⟩
  · refine ⟨_, _, hu, ?_⟩
    intro h
    have hval : u.val % 0x110000 = 0x22 := congrArg Fin.val h
    rw [Nat.mod_eq_of_lt (by omega)] at hval
    exact hquote hval
  · exact ⟨_, _, hu, by decide⟩

theorem escaped_split (us vs : List CodeUnit) (rest rest' : Str)
    (h : us.flatMap escapeUnit ++ cp '\x22' :: rest = vs.flatMap escapeUnit ++ cp '\x22' :: rest') :
    us = vs ∧ rest = rest' := by
  induction us generalizing vs with
  | nil =>
    cases vs with
    | nil => exact ⟨rfl, (List.cons.inj h).2⟩
    | cons v vs =>
      obtain ⟨c, s, hv, hne⟩ := escapeUnit_head v
      rw [List.flatMap_cons, hv] at h
      exact absurd (List.cons.inj h).1.symm hne
  | cons u us ih =>
    cases vs with
    | nil =>
      obtain ⟨c, s, hu, hne⟩ := escapeUnit_head u
      rw [List.flatMap_cons, hu] at h
      exact absurd (List.cons.inj h).1 hne
    | cons v vs =>
      rw [List.flatMap_cons, List.flatMap_cons, List.append_assoc, List.append_assoc] at h
      have hread := unescape_escapeUnit u (us.flatMap escapeUnit ++ cp '\x22' :: rest)
      rw [h, unescape_escapeUnit v] at hread
      obtain ⟨hunit, htail⟩ := Prod.mk.inj (Option.some.inj hread)
      obtain ⟨hus, hrest⟩ := ih vs htail.symm
      rw [Fin.ext hunit, hus]
      exact ⟨rfl, hrest⟩

theorem quote_split {us vs : List CodeUnit} {rest rest' : Str}
    (h : quote us ++ rest = quote vs ++ rest') : us = vs ∧ rest = rest' := by
  unfold quote at h
  simp only [List.cons_append, List.append_assoc, List.nil_append] at h
  exact escaped_split us vs rest rest' (List.cons.inj h).2

def Stops (rest : Str) : Prop := ∀ c s, rest = c :: s → isNumberChar c = false

theorem numberText_chars (text : NumberText) : text.val.all isNumberChar = true := by
  obtain ⟨s, hs⟩ := text
  cases s with
  | nil => cases hs
  | cons c s => exact (Bool.and_eq_true_iff.mp hs).2

theorem number_split (s t rest rest' : Str) (hs : s.all isNumberChar = true)
    (ht : t.all isNumberChar = true) (hrest : Stops rest) (hrest' : Stops rest')
    (h : s ++ rest = t ++ rest') : s = t ∧ rest = rest' := by
  induction s generalizing t with
  | nil =>
    cases t with
    | nil => exact ⟨rfl, h⟩
    | cons d t =>
      rw [List.all_cons, Bool.and_eq_true] at ht
      have hstop := hrest d (t ++ rest') h
      rw [ht.1] at hstop
      cases hstop
  | cons c s ih =>
    rw [List.all_cons, Bool.and_eq_true] at hs
    cases t with
    | nil =>
      have hstop := hrest' c (s ++ rest) h.symm
      rw [hs.1] at hstop
      cases hstop
    | cons d t =>
      rw [List.all_cons, Bool.and_eq_true] at ht
      obtain ⟨hcd, htail⟩ := List.cons.inj h
      obtain ⟨hst, hrests⟩ := ih t hs.2 ht.2 htail
      exact ⟨by rw [hcd, hst], hrests⟩

theorem stops_cons {c : CodePoint} (h : isNumberChar c = false) (s : Str) : Stops (c :: s) := by
  intro d t hdt
  rw [← (List.cons.inj hdt).1]
  exact h

theorem stops_items (xs : List Json) (rest : Str) : Stops (renderItems xs ++ rest) := by
  cases xs with
  | nil => exact stops_cons (by decide) _
  | cons x xs => exact stops_cons (by decide) _

theorem stops_members (xs : List (List CodeUnit × Json)) (rest : Str) :
    Stops (renderMembers xs ++ rest) := by
  cases xs with
  | nil => exact stops_cons (by decide) _
  | cons x xs => exact stops_cons (by decide) _

inductive Form where
  | word (c : CodePoint)
  | number
  deriving DecidableEq

def formOf (c : CodePoint) : Form := if startsNumber c then .number else .word c

def form : Json → Form
  | .null => .word (cp 'n')
  | .bool true => .word (cp 't')
  | .bool false => .word (cp 'f')
  | .num _ => .number
  | .str _ => .word (cp '\x22')
  | .arr _ => .word (cp '[')
  | .obj _ => .word (cp '\x7b')

theorem render_head (j : Json) : ∃ c s, render j = c :: s ∧ formOf c = form j := by
  cases j with
  | null => exact ⟨_, _, rfl, rfl⟩
  | bool b => cases b with
    | true => exact ⟨_, _, rfl, rfl⟩
    | false => exact ⟨_, _, rfl, rfl⟩
  | num text =>
    obtain ⟨s, hs⟩ := text
    cases s with
    | nil => cases hs
    | cons c s =>
      refine ⟨c, s, rfl, ?_⟩
      have hstarts : startsNumber c = true := (Bool.and_eq_true_iff.mp hs).1
      unfold formOf
      rw [if_pos hstarts]
      rfl
  | str units => exact ⟨_, _, rfl, rfl⟩
  | arr items => cases items with
    | nil => exact ⟨_, _, rfl, rfl⟩
    | cons x xs => exact ⟨_, _, rfl, rfl⟩
  | obj members => cases members with
    | nil => exact ⟨_, _, rfl, rfl⟩
    | cons x xs => exact ⟨_, _, rfl, rfl⟩

theorem form_eq {j j' : Json} {rest rest' : Str} (h : render j ++ rest = render j' ++ rest') :
    form j = form j' := by
  obtain ⟨c, s, hj, hc⟩ := render_head j
  obtain ⟨d, t, hj', hd⟩ := render_head j'
  rw [hj, hj'] at h
  rw [← hc, ← hd, (List.cons.inj h).1]

theorem form_ne_close (j : Json) : form j ≠ formOf (cp ']') := by
  cases j with
  | null => decide
  | bool b => cases b <;> decide
  | num text => exact Form.noConfusion
  | str units =>
    show Form.word (cp '\x22') ≠ formOf (cp ']')
    decide
  | arr items =>
    show Form.word (cp '[') ≠ formOf (cp ']')
    decide
  | obj members =>
    show Form.word (cp '\x7b') ≠ formOf (cp ']')
    decide

theorem render_ne_close (j : Json) (s t : Str) : render j ++ s ≠ cp ']' :: t := by
  intro h
  obtain ⟨c, u, hj, hc⟩ := render_head j
  rw [hj] at h
  rw [(List.cons.inj h).1] at hc
  exact form_ne_close j hc.symm

theorem render_array_append (x : Json) (xs : List Json) (rest : Str) :
    render (.arr (x :: xs)) ++ rest = cp '[' :: (render x ++ (renderItems xs ++ rest)) := by
  show cp '[' :: (render x ++ renderItems xs) ++ rest = _
  rw [List.cons_append, List.append_assoc]

theorem renderItems_append (x : Json) (xs : List Json) (rest : Str) :
    renderItems (x :: xs) ++ rest = cp ',' :: (render x ++ (renderItems xs ++ rest)) := by
  show cp ',' :: (render x ++ renderItems xs) ++ rest = _
  rw [List.cons_append, List.append_assoc]

theorem render_object_append (k : List CodeUnit) (x : Json) (xs : List (List CodeUnit × Json))
    (rest : Str) :
    render (.obj ((k, x) :: xs)) ++ rest =
      cp '\x7b' :: (quote k ++ cp ':' :: (render x ++ (renderMembers xs ++ rest))) := by
  show cp '\x7b' :: (quote k ++ cp ':' :: (render x ++ renderMembers xs)) ++ rest = _
  rw [List.cons_append, List.append_assoc, List.cons_append, List.append_assoc]

theorem renderMembers_append (k : List CodeUnit) (x : Json) (xs : List (List CodeUnit × Json))
    (rest : Str) :
    renderMembers ((k, x) :: xs) ++ rest =
      cp ',' :: (quote k ++ cp ':' :: (render x ++ (renderMembers xs ++ rest))) := by
  show cp ',' :: (quote k ++ cp ':' :: (render x ++ renderMembers xs)) ++ rest = _
  rw [List.cons_append, List.append_assoc, List.cons_append, List.append_assoc]

mutual

theorem render_split : ∀ (j j' : Json) (rest rest' : Str), Stops rest → Stops rest' →
    render j ++ rest = render j' ++ rest' → j = j' ∧ rest = rest'
  | .null, j', rest, rest', _, _, h => by
    have hform := form_eq h
    cases j' with
    | null => exact ⟨rfl, List.append_cancel_left h⟩
    | bool b => cases b <;> cases hform
    | _ => cases hform
  | .bool b, j', rest, rest', _, _, h => by
    have hform := form_eq h
    cases j' with
    | bool b' =>
      have hb : b = b' := by
        cases b <;> cases b' <;> first | rfl | cases hform
      subst hb
      exact ⟨rfl, List.append_cancel_left h⟩
    | _ => cases b <;> cases hform
  | .num text, j', rest, rest', hrest, hrest', h => by
    have hform := form_eq h
    cases j' with
    | num text' =>
      obtain ⟨htext, hrests⟩ := number_split text.val text'.val rest rest'
        (numberText_chars text) (numberText_chars text') hrest hrest' h
      rw [Subtype.ext htext]
      exact ⟨rfl, hrests⟩
    | bool b => cases b <;> cases hform
    | _ => cases hform
  | .str units, j', rest, rest', _, _, h => by
    have hform := form_eq h
    cases j' with
    | str units' =>
      obtain ⟨hunits, hrests⟩ := quote_split h
      rw [hunits]
      exact ⟨rfl, hrests⟩
    | bool b => cases b <;> cases hform
    | _ => cases hform
  | .arr xs, j', rest, rest', _, _, h => by
    have hform := form_eq h
    cases j' with
    | arr xs' =>
      obtain ⟨hxs, hrests⟩ := renderArray_split xs xs' rest rest' h
      rw [hxs]
      exact ⟨rfl, hrests⟩
    | bool b => cases b <;> cases hform
    | _ => cases hform
  | .obj xs, j', rest, rest', _, _, h => by
    have hform := form_eq h
    cases j' with
    | obj xs' =>
      obtain ⟨hxs, hrests⟩ := renderObject_split xs xs' rest rest' h
      rw [hxs]
      exact ⟨rfl, hrests⟩
    | bool b => cases b <;> cases hform
    | _ => cases hform

theorem renderArray_split : ∀ (xs xs' : List Json) (rest rest' : Str),
    render (.arr xs) ++ rest = render (.arr xs') ++ rest' → xs = xs' ∧ rest = rest'
  | [], [], _, _, h => ⟨rfl, List.append_cancel_left h⟩
  | [], x' :: xs', rest, rest', h => by
    rw [render_array_append] at h
    exact absurd (List.cons.inj h).2.symm (render_ne_close x' _ _)
  | x :: xs, [], rest, rest', h => by
    rw [render_array_append] at h
    exact absurd (List.cons.inj h).2 (render_ne_close x _ _)
  | x :: xs, x' :: xs', rest, rest', h => by
    rw [render_array_append, render_array_append] at h
    obtain ⟨hx, htail⟩ := render_split x x' _ _ (stops_items xs rest) (stops_items xs' rest')
      (List.cons.inj h).2
    obtain ⟨hxs, hrests⟩ := renderItems_split xs xs' rest rest' htail
    rw [hx, hxs]
    exact ⟨rfl, hrests⟩

theorem renderItems_split : ∀ (xs xs' : List Json) (rest rest' : Str),
    renderItems xs ++ rest = renderItems xs' ++ rest' → xs = xs' ∧ rest = rest'
  | [], [], _, _, h => ⟨rfl, (List.cons.inj h).2⟩
  | [], _ :: _, _, _, h => absurd (List.cons.inj h).1 (by decide)
  | _ :: _, [], _, _, h => absurd (List.cons.inj h).1 (by decide)
  | x :: xs, x' :: xs', rest, rest', h => by
    rw [renderItems_append, renderItems_append] at h
    obtain ⟨hx, htail⟩ := render_split x x' _ _ (stops_items xs rest) (stops_items xs' rest')
      (List.cons.inj h).2
    obtain ⟨hxs, hrests⟩ := renderItems_split xs xs' rest rest' htail
    rw [hx, hxs]
    exact ⟨rfl, hrests⟩

theorem renderObject_split : ∀ (xs xs' : List (List CodeUnit × Json)) (rest rest' : Str),
    render (.obj xs) ++ rest = render (.obj xs') ++ rest' → xs = xs' ∧ rest = rest'
  | [], [], _, _, h => ⟨rfl, List.append_cancel_left h⟩
  | [], _ :: _, _, _, h => absurd (List.cons.inj (List.cons.inj h).2).1 (by decide)
  | _ :: _, [], _, _, h => absurd (List.cons.inj (List.cons.inj h).2).1 (by decide)
  | (k, x) :: xs, (k', x') :: xs', rest, rest', h => by
    rw [render_object_append, render_object_append] at h
    obtain ⟨hk, hvalues⟩ := quote_split (List.cons.inj h).2
    obtain ⟨hx, htail⟩ := render_split x x' _ _ (stops_members xs rest) (stops_members xs' rest')
      (List.cons.inj hvalues).2
    obtain ⟨hxs, hrests⟩ := renderMembers_split xs xs' rest rest' htail
    rw [hk, hx, hxs]
    exact ⟨rfl, hrests⟩

theorem renderMembers_split : ∀ (xs xs' : List (List CodeUnit × Json)) (rest rest' : Str),
    renderMembers xs ++ rest = renderMembers xs' ++ rest' → xs = xs' ∧ rest = rest'
  | [], [], _, _, h => ⟨rfl, (List.cons.inj h).2⟩
  | [], _ :: _, _, _, h => absurd (List.cons.inj h).1 (by decide)
  | _ :: _, [], _, _, h => absurd (List.cons.inj h).1 (by decide)
  | (k, x) :: xs, (k', x') :: xs', rest, rest', h => by
    rw [renderMembers_append, renderMembers_append] at h
    obtain ⟨hk, hvalues⟩ := quote_split (List.cons.inj h).2
    obtain ⟨hx, htail⟩ := render_split x x' _ _ (stops_members xs rest) (stops_members xs' rest')
      (List.cons.inj hvalues).2
    obtain ⟨hxs, hrests⟩ := renderMembers_split xs xs' rest rest' htail
    rw [hk, hx, hxs]
    exact ⟨rfl, hrests⟩

end

theorem render_inj {j j' : Json} (h : render j = render j') : j = j' := by
  have hstops : Stops [] := fun c s hnil => nomatch hnil
  refine (render_split j j' [] [] hstops hstops ?_).1
  rw [h]

def IsAscii (s : Str) : Prop := ∀ c ∈ s, c.val < 0x80

theorem isAscii_of_all {s : Str} (h : s.all (fun c => decide (c.val < 0x80)) = true) : IsAscii s := by
  intro c hc
  exact of_decide_eq_true (List.all_eq_true.mp h c hc)

theorem isAscii_cons {c : CodePoint} {s : Str} (hc : c.val < 0x80) (hs : IsAscii s) :
    IsAscii (c :: s) := by
  intro d hd
  rcases List.mem_cons.mp hd with rfl | hd
  · exact hc
  · exact hs d hd

theorem isAscii_append {s t : Str} (hs : IsAscii s) (ht : IsAscii t) : IsAscii (s ++ t) := by
  intro c hc
  rcases List.mem_append.mp hc with hc | hc
  · exact hs c hc
  · exact ht c hc

theorem hexDigit_ascii (n : ℕ) (h : n < 16) : (hexDigit n).val < 0x80 := by
  interval_cases n <;> decide

theorem hex_ascii (bs : Bytes) : IsAscii (hex bs) := by
  induction bs with
  | nil => exact List.forall_mem_nil _
  | cons b bs ih =>
    exact isAscii_cons (hexDigit_ascii _ (by omega)) (isAscii_cons (hexDigit_ascii _ (by omega)) ih)

theorem escapeUnit_ascii (u : CodeUnit) : IsAscii (escapeUnit u) := by
  rcases escapeUnit_cases u with ⟨c, hmem, hu⟩ | ⟨-, -, hle, hu⟩ | hu
  · rw [hu]
    have hc : c.val < 0x80 := (shortEscapes_back _ hmem).2
    exact isAscii_cons (by decide) (isAscii_cons hc (List.forall_mem_nil _))
  · rw [hu]
    refine isAscii_cons ?_ (List.forall_mem_nil _)
    show u.val % 0x110000 < 0x80
    omega
  · rw [hu]
    exact isAscii_cons (by decide) (isAscii_cons (by decide) (hex_ascii _))

theorem quote_ascii (units : List CodeUnit) : IsAscii (quote units) := by
  unfold quote
  refine isAscii_cons (by decide) (isAscii_append ?_ (isAscii_cons (by decide) (List.forall_mem_nil _)))
  intro c hc
  obtain ⟨u, -, hu⟩ := List.mem_flatMap.mp hc
  exact escapeUnit_ascii u c hu

theorem numberText_ascii (text : NumberText) : IsAscii text.val := by
  intro c hc
  have hchar := List.all_eq_true.mp (numberText_chars text) c hc
  unfold isNumberChar inRanges at hchar
  simp only [List.any_cons, List.any_nil, Bool.or_false, Bool.or_eq_true, Bool.and_eq_true,
    decide_eq_true_eq] at hchar
  omega

mutual

theorem render_ascii : ∀ j : Json, IsAscii (render j)
  | .null => isAscii_of_all (by decide)
  | .bool true => isAscii_of_all (by decide)
  | .bool false => isAscii_of_all (by decide)
  | .num text => numberText_ascii text
  | .str units => quote_ascii units
  | .arr [] => isAscii_of_all (by decide)
  | .arr (x :: xs) =>
    isAscii_cons (by decide) (isAscii_append (render_ascii x) (renderItems_ascii xs))
  | .obj [] => isAscii_of_all (by decide)
  | .obj ((k, x) :: xs) =>
    isAscii_cons (by decide) (isAscii_append (quote_ascii k)
      (isAscii_cons (by decide) (isAscii_append (render_ascii x) (renderMembers_ascii xs))))

theorem renderItems_ascii : ∀ xs : List Json, IsAscii (renderItems xs)
  | [] => isAscii_cons (by decide) (List.forall_mem_nil _)
  | x :: xs => isAscii_cons (by decide) (isAscii_append (render_ascii x) (renderItems_ascii xs))

theorem renderMembers_ascii : ∀ xs : List (List CodeUnit × Json), IsAscii (renderMembers xs)
  | [] => isAscii_cons (by decide) (List.forall_mem_nil _)
  | (k, x) :: xs =>
    isAscii_cons (by decide) (isAscii_append (quote_ascii k)
      (isAscii_cons (by decide) (isAscii_append (render_ascii x) (renderMembers_ascii xs))))

end

theorem utf8Encode_of_ascii {s : Str} (h : IsAscii s) :
    utf8Encode s = .ok (s.map fun c => byte c.val) := by
  induction s with
  | nil => rfl
  | cons c s ih =>
    have hc : encodeCodePoint c = some [byte c.val] := by
      unfold encodeCodePoint
      exact if_pos (h c (List.mem_cons_self ..))
    simp only [utf8Encode, hc, ih fun d hd => h d (List.mem_cons_of_mem _ hd), List.map_cons]
    rfl

theorem utf16_of_ascii {s : Str} (h : IsAscii s) :
    utf16 s = s.map fun c => Fin.ofNat 0x10000 c.val := by
  induction s with
  | nil => rfl
  | cons c s ih =>
    have hc : c.val < 0x10000 := Nat.lt_trans (h c (List.mem_cons_self ..)) (by decide)
    have hunit : unitsOf c = [Fin.ofNat 0x10000 c.val] := if_pos hc
    show unitsOf c ++ utf16 s = _
    rw [hunit, ih fun d hd => h d (List.mem_cons_of_mem _ hd)]
    rfl

theorem utf16_inj_of_ascii {s t : Str} (hs : IsAscii s) (ht : IsAscii t) (h : utf16 s = utf16 t) :
    s = t := by
  rw [utf16_of_ascii hs, utf16_of_ascii ht] at h
  have hback : ∀ u : Str, IsAscii u →
      (u.map fun c => Fin.ofNat 0x10000 c.val).map (fun n : CodeUnit => Fin.ofNat 0x110000 n.val) =
        u := by
    intro u hu
    rw [List.map_map]
    refine (List.map_congr_left fun c hc => ?_).trans (List.map_id' u)
    have hlt := hu c hc
    apply Fin.ext
    show c.val % 0x10000 % 0x110000 = c.val
    omega
  rw [← hback s hs, h, hback t ht]

end PyJson
