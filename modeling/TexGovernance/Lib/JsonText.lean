import TexGovernance.Lib.JsonLoads

/-!
# Nested JSON texts

`json.dumps(.., sort_keys=True, separators=(",", ":"))` of a value with lists and
objects in it, with `ensure_ascii` or without, and what `json.loads` makes of the
text: the value again, but for the halves of surrogates that ASCII texts join.
-/

namespace JsonText
open PyStr PyBytes PyCodec PyJson JsonDoc JsonLoads

def intDigits (z : ℤ) : Str := if z < 0 then cp '-' :: natText z.natAbs else natText z.natAbs

/-- `float.__repr__`, but for the names of what is not finite. -/
def floatText (text : Str) : Str :=
  if text = txt "nan" then txt "NaN"
  else if text = txt "inf" then txt "Infinity"
  else if text = txt "-inf" then txt "-Infinity"
  else text

structure Quoting where
  quote : Str → Str
  back : Str → Str
  reads : ∀ s, ∃ body, quote s = cp '\x22' :: body ∧
    ∀ rest, readString (body ++ rest) = .ok (back s, rest)

/-- `ensure_ascii=False`. -/
def keepChars : Quoting where
  quote := quoted
  back s := s
  reads s := by
    refine ⟨s.flatMap escapeChar ++ [cp '\x22'], rfl, fun rest => ?_⟩
    rw [List.append_assoc]
    exact readString_quoted s rest

mutual

def write (q : Quoting) : JsonValue → Str
  | .null => txt "null"
  | .bool true => txt "true"
  | .bool false => txt "false"
  | .int z => intDigits z
  | .float text => floatText text
  | .str s => q.quote s
  | .arr [] => [cp '[', cp ']']
  | .arr (x :: xs) => cp '[' :: (write q x ++ writeItems q xs)
  | .obj [] => [cp '\x7b', cp '\x7d']
  | .obj ((k, x) :: xs) => cp '\x7b' :: (q.quote k ++ cp ':' :: (write q x ++ writeMembers q xs))

def writeItems (q : Quoting) : List JsonValue → Str
  | [] => [cp ']']
  | x :: xs => cp ',' :: (write q x ++ writeItems q xs)

def writeMembers (q : Quoting) : List (Str × JsonValue) → Str
  | [] => [cp '\x7d']
  | (k, x) :: xs => cp ',' :: (q.quote k ++ cp ':' :: (write q x ++ writeMembers q xs))

end

mutual

def mapTexts (f : Str → Str) : JsonValue → JsonValue
  | .str s => .str (f s)
  | .arr items => .arr (mapItems f items)
  | .obj members => .obj (mapMembers f members)
  | v => v

def mapItems (f : Str → Str) : List JsonValue → List JsonValue
  | [] => []
  | x :: xs => mapTexts f x :: mapItems f xs

def mapMembers (f : Str → Str) : List (Str × JsonValue) → List (Str × JsonValue)
  | [] => []
  | (k, x) :: xs => (f k, mapTexts f x) :: mapMembers f xs

end

def byName (members : List (Str × JsonValue)) : List (Str × JsonValue) :=
  members.insertionSort fun a b => strLe a.1 b.1 = true

mutual

def sortKeys : JsonValue → JsonValue
  | .arr items => .arr (sortItems items)
  | .obj members => .obj (byName (sortMembers members))
  | v => v

def sortItems : List JsonValue → List JsonValue
  | [] => []
  | x :: xs => sortKeys x :: sortItems xs

def sortMembers : List (Str × JsonValue) → List (Str × JsonValue)
  | [] => []
  | (k, x) :: xs => (k, sortKeys x) :: sortMembers xs

end

def dumps (q : Quoting) (v : JsonValue) : Str := write q (sortKeys v)

def Ends (rest : Str) : Prop := ∀ c ∈ rest.head?, c = cp ',' ∨ c = cp ']' ∨ c = cp '\x7d'

theorem ends_nil : Ends [] := fun _ h => nomatch h

theorem ends_cons {c : CodePoint} (h : c = cp ',' ∨ c = cp ']' ∨ c = cp '\x7d') (rest : Str) :
    Ends (c :: rest) := by
  intro d hd
  obtain rfl : c = d := Option.some.inj hd
  exact h

theorem Ends.quiet {rest : Str} (h : Ends rest) :
    startsDigit rest = false ∧ fractionPart rest = ([], rest) ∧ exponentPart rest = ([], rest) := by
  cases rest with
  | nil => exact ⟨rfl, rfl, rfl⟩
  | cons c t =>
    obtain rfl | rfl | rfl := h c rfl
    · exact ⟨rfl, rfl, rfl⟩
    · exact ⟨rfl, rfl, rfl⟩
    · exact ⟨rfl, rfl, rfl⟩

theorem readNumber_natText {n : ℕ} (hlength : (natText n).length ≤ maxStrDigits) {rest : Str}
    (hrest : Ends rest) : readNumber (natText n ++ rest) = .ok (.int n, rest) := by
  obtain ⟨hdigit, hfraction, hexponent⟩ := hrest.quiet
  unfold readNumber
  simp only [minusPart_natText, integerPart_natText n hdigit, hfraction, hexponent,
    intOfDigits_natText hlength]
  rfl

theorem readNumber_minus {n : ℕ} (hlength : (natText n).length ≤ maxStrDigits) {rest : Str}
    (hrest : Ends rest) : readNumber (cp '-' :: (natText n ++ rest)) = .ok (.int (-n), rest) := by
  obtain ⟨hdigit, hfraction, hexponent⟩ := hrest.quiet
  have hminus : minusPart (cp '-' :: (natText n ++ rest)) = (true, natText n ++ rest) := rfl
  unfold readNumber
  simp only [hminus, integerPart_natText n hdigit, hfraction, hexponent, intOfDigits_natText hlength]
  rfl

theorem natText_cons (n : ℕ) : ∃ c t, natText n = c :: t ∧ isDigit c = true := by
  cases htext : natText n with
  | nil => exact absurd htext (digits_ne_nil n)
  | cons c t =>
    refine ⟨c, t, rfl, isDigit_natText (n := n) ?_⟩
    rw [htext]
    exact List.mem_cons_self

theorem readLiteral_minus {c : CodePoint} (h : isDigit c = true) (rest : Str) :
    readLiteral (cp '-' :: c :: rest) = none := by
  have hwords : ∀ w ∈ literals.map Prod.fst, ∃ d e u, w = d :: e :: u ∧
      (d ≠ cp '-' ∨ isDigit e = false) := by
    simp [literals, txt]
    decide
  unfold readLiteral
  rw [List.findSome?_eq_none_iff]
  intro w hw
  obtain ⟨d, e, u, htext, hde⟩ := hwords w.1 (List.mem_map_of_mem hw)
  have hne : List.isPrefixOf (d :: e :: u) (cp '-' :: c :: rest) = false := by
    by_contra hprefix
    rw [Bool.not_eq_false, List.isPrefixOf, List.isPrefixOf, Bool.and_eq_true, Bool.and_eq_true,
      beq_iff_eq, beq_iff_eq] at hprefix
    obtain ⟨rfl, rfl, -⟩ := hprefix
    obtain hd | he := hde
    · exact hd rfl
    · rw [h] at he
      cases he
  rw [htext, hne]
  rfl

theorem readLeaf_int {z : ℤ} (hshort : (natText z.natAbs).length ≤ maxStrDigits) {rest : Str}
    (hrest : Ends rest) : readLeaf (intDigits z ++ rest) = .ok (.int z, rest) := by
  obtain ⟨c, t, htext, hc⟩ := natText_cons z.natAbs
  unfold intDigits
  by_cases hneg : z < 0
  · have hread := readNumber_minus hshort hrest
    rw [if_pos hneg, List.cons_append]
    rw [htext, List.cons_append] at hread ⊢
    rw [readLeaf, if_neg (by decide), readLiteral_minus hc]
    simp only [hread]
    congr 3
    omega
  · have hread := readNumber_natText hshort hrest
    have hquote : c ≠ cp '\x22' := by
      rintro rfl
      exact absurd hc (by decide)
    rw [if_neg hneg]
    rw [htext, List.cons_append] at hread ⊢
    rw [readLeaf, if_neg hquote, readLiteral_digit hc]
    simp only [hread]
    congr 3
    omega

theorem readLeaf_quote (q : Quoting) (s rest : Str) :
    readLeaf (q.quote s ++ rest) = .ok (.str (q.back s), rest) := by
  obtain ⟨body, hquote, hread⟩ := q.reads s
  rw [hquote, List.cons_append, readLeaf, if_pos rfl, hread]
  rfl

def ReadsBack (text : Str) : Prop :=
  ∀ rest, Ends rest → readLeaf (floatText text ++ rest) = .ok (.float text, rest)

def notFirst : List CodePoint :=
  lit [' ', '\t', '\n', '\r', '[', ']', '\x7b', '\ufeff']

theorem readLeaf_notFirst {c : CodePoint} (rest : Str) (h : c ∈ notFirst) :
    readLeaf (c :: rest) = .error .valueError := by
  simp only [notFirst, lit, List.map_cons, List.map_nil, List.mem_cons, List.not_mem_nil, or_false] at h
  obtain rfl | rfl | rfl | rfl | rfl | rfl | rfl | rfl := h <;> rfl

theorem isBlank_mem_notFirst {c : CodePoint} (h : isBlank c = true) : c ∈ notFirst := by
  have hval : c.val = 0x20 ∨ c.val = 0x9 ∨ c.val = 0xa ∨ c.val = 0xd := by
    simp only [isBlank, inRanges, List.any_cons, List.any_nil, Bool.or_false, Bool.or_eq_true,
      Bool.and_eq_true, decide_eq_true_eq] at h
    omega
  have hcode : c = Fin.ofNat 0x110000 c.val := (Fin.ext (Nat.mod_eq_of_lt c.isLt)).symm
  rw [hcode]
  obtain h | h | h | h := hval <;> rw [h] <;> decide

def StartsValue (s : Str) : Prop := ∃ c t, s = c :: t ∧ isBlank c = false ∧ c ≠ cp ']' ∧
  c ≠ Fin.ofNat 0x110000 0xfeff

theorem readLeaf_starts {s rest : Str} {v : JsonValue} (h : readLeaf s = .ok (v, rest)) :
    ∃ c t, s = c :: t ∧ c ∉ notFirst ∧ c ≠ cp '\x7b' ∧ c ≠ cp '[' := by
  cases s with
  | nil => cases h
  | cons c t =>
    have hnot : c ∉ notFirst := by
      intro hc
      rw [readLeaf_notFirst t hc] at h
      cases h
    refine ⟨c, t, rfl, hnot, ?_, ?_⟩
    · rintro rfl
      exact hnot (by decide)
    · rintro rfl
      exact hnot (by decide)

theorem startsValue_of_not_mem {c : CodePoint} (h : c ∉ notFirst) (t : Str) : StartsValue (c :: t) := by
  refine ⟨c, t, rfl, ?_, ?_, ?_⟩
  · rw [Bool.eq_false_iff]
    exact mt isBlank_mem_notFirst h
  · rintro rfl
    exact h (by decide)
  · rintro rfl
    exact h (by decide)

theorem readValue_of_leaf (depth : ℕ) {s rest : Str} {v : JsonValue} (h : readLeaf s = .ok (v, rest)) :
    readValue depth s = .ok (v, rest) := by
  obtain ⟨c, t, rfl, -, hbrace, hbracket⟩ := readLeaf_starts h
  cases depth with
  | zero =>
    have hflat : ¬((c :: t).head? = cp '\x7b' ∨ (c :: t).head? = cp '[') := by
      rw [List.head?_cons, Option.some_inj, Option.some_inj]
      exact not_or.mpr ⟨hbrace, hbracket⟩
    rw [readValue, if_neg hflat]
    exact h
  | succ depth =>
    rw [readValue, readNested, if_neg hbrace, if_neg hbracket]
    exact h

def tailText {α : Type} (text : α → Str) (close : CodePoint) : List α → Str
  | [] => [close]
  | a :: as => cp ',' :: (text a ++ tailText text close as)

theorem length_tailText {α : Type} (text : α → Str) (close : CodePoint) (as : List α) :
    as.length < (tailText text close as).length := by
  induction as with
  | nil => exact Nat.one_pos
  | cons a as ih =>
    rw [tailText, List.length_cons, List.length_cons, List.length_append]
    omega

structure Element {α : Type} (item : Reader α) (text : α → Str) (back : α → α) (a : α) : Prop where
  read : ∀ rest, Ends rest → item (text a ++ rest) = .ok (back a, rest)
  starts : StartsValue (text a)

variable {α : Type} {item : Reader α} {text : α → Str} {back : α → α} {close : CodePoint}

theorem ends_tailText (text : α → Str) (hclose : close = cp ']' ∨ close = cp '\x7d') (as : List α)
    (rest : Str) : Ends (tailText text close as ++ rest) := by
  cases as with
  | nil => exact ends_cons (.inr hclose) rest
  | cons a as => exact ends_cons (.inl rfl) _

theorem skipBlanks_starts {s : Str} (h : StartsValue s) (rest : Str) :
    skipBlanks (s ++ rest) = s ++ rest := by
  obtain ⟨c, t, rfl, hc, -⟩ := h
  exact skipBlanks_cons hc _

theorem readSequence_tailText (hclose : close = cp ']' ∨ close = cp '\x7d') (rest : Str) (as : List α) :
    ∀ (a : α) (rounds : ℕ), (∀ b ∈ a :: as, Element item text back b) → as.length < rounds →
      readSequence item close rounds (text a ++ (tailText text close as ++ rest)) =
        .ok ((a :: as).map back, rest) := by
  have hblank : isBlank close = false := by obtain rfl | rfl := hclose <;> decide
  have hcomma : cp ',' ≠ close := by obtain rfl | rfl := hclose <;> decide
  induction as with
  | nil =>
    intro a rounds hall hrounds
    obtain ⟨rounds, rfl⟩ := Nat.exists_eq_succ_of_ne_zero (by omega : rounds ≠ 0)
    have hread := (hall a List.mem_cons_self).read _ (ends_tailText text hclose [] rest)
    have hskip : skipBlanks (tailText text close [] ++ rest) = close :: rest :=
      skipBlanks_cons hblank rest
    rw [readSequence_succ, hread]
    simp only [bind, Except.bind, hskip, if_true]
    rfl
  | cons next as ih =>
    intro a rounds hall hrounds
    obtain ⟨ha, hnext⟩ := List.forall_mem_cons.mp hall
    obtain ⟨rounds, rfl⟩ := Nat.exists_eq_succ_of_ne_zero (by omega : rounds ≠ 0)
    have hread := ha.read _ (ends_tailText text hclose (next :: as) rest)
    have hskip : skipBlanks (tailText text close (next :: as) ++ rest) =
        cp ',' :: (text next ++ (tailText text close as ++ rest)) := by
      rw [← List.append_assoc]
      exact skipBlanks_cons (by decide) _
    have hvalue := skipBlanks_starts (hnext next List.mem_cons_self).starts
      (tailText text close as ++ rest)
    have hseq := ih next rounds hnext (by rw [List.length_cons] at hrounds; omega)
    rw [readSequence_succ, hread]
    simp only [bind, Except.bind, hskip, if_neg hcomma, if_true, hvalue, hseq]
    rfl

theorem readItems_nil (item : Reader α) (hclose : close = cp ']' ∨ close = cp '\x7d') (rest : Str) :
    readItems item close (close :: rest) = .ok ([], rest) := by
  have hblank : isBlank close = false := by obtain rfl | rfl := hclose <;> decide
  unfold readItems
  simp only [skipBlanks_cons hblank, if_true]

theorem readItems_tailText (hclose : close = cp ']' ∨ close = cp '\x7d') (a : α) (as : List α)
    (hfirst : ∀ c t, text a = c :: t → c ≠ close) (hall : ∀ b ∈ a :: as, Element item text back b)
    (rest : Str) :
    readItems item close (text a ++ (tailText text close as ++ rest)) = .ok ((a :: as).map back, rest) := by
  have hstarts := (hall a List.mem_cons_self).starts
  obtain ⟨c, t, htext, hc, -⟩ := hstarts
  have hlength := length_tailText text close as
  have hseq := readSequence_tailText hclose rest as a
    ((t ++ (tailText text close as ++ rest)).length + 1) hall (by simp only [List.length_append]; omega)
  unfold readItems
  rw [htext, List.cons_append] at hseq ⊢
  simp only [skipBlanks_cons hc, if_neg (hfirst c t htext)]
  exact hseq

section Nested

variable (q : Quoting)

def memberText (m : Str × JsonValue) : Str := q.quote m.1 ++ cp ':' :: write q m.2

def memberBack (m : Str × JsonValue) : Str × JsonValue := (q.back m.1, mapTexts q.back m.2)

theorem writeItems_eq (xs : List JsonValue) : writeItems q xs = tailText (write q) (cp ']') xs := by
  induction xs with
  | nil => rfl
  | cons x xs ih => rw [writeItems, tailText, ih]

theorem writeMembers_eq (xs : List (Str × JsonValue)) :
    writeMembers q xs = tailText (memberText q) (cp '\x7d') xs := by
  induction xs with
  | nil => rfl
  | cons m xs ih =>
    rw [writeMembers, tailText, memberText, ih, List.append_assoc, List.cons_append]

theorem mapItems_eq (f : Str → Str) (xs : List JsonValue) : mapItems f xs = xs.map (mapTexts f) := by
  induction xs with
  | nil => rfl
  | cons x xs ih => rw [mapItems, List.map_cons, ih]

theorem mapMembers_eq (f : Str → Str) (xs : List (Str × JsonValue)) :
    mapMembers f xs = xs.map fun m => (f m.1, mapTexts f m.2) := by
  induction xs with
  | nil => rfl
  | cons m xs ih => rw [mapMembers, List.map_cons, ih]

/-- The values that are read back, nested `depth` times at most. -/
inductive Tame : ℕ → JsonValue → Prop
  | null {depth : ℕ} : Tame depth .null
  | bool {depth : ℕ} (b : Bool) : Tame depth (.bool b)
  | int {depth : ℕ} {z : ℤ} (h : (natText z.natAbs).length ≤ maxStrDigits) : Tame depth (.int z)
  | float {depth : ℕ} {text : Str} (h : ReadsBack text) : Tame depth (.float text)
  | str {depth : ℕ} (s : Str) : Tame depth (.str s)
  | arr {depth : ℕ} {items : List JsonValue} (h : ∀ x ∈ items, Tame depth x) :
      Tame (depth + 1) (.arr items)
  | obj {depth : ℕ} {members : List (Str × JsonValue)} (h : ∀ m ∈ members, Tame depth m.2) :
      Tame (depth + 1) (.obj members)

variable {q}

theorem element_of_leaf {depth : ℕ} {v : JsonValue}
    (h : ∀ rest, Ends rest → readLeaf (write q v ++ rest) = .ok (mapTexts q.back v, rest)) :
    Element (readValue depth) (write q) (mapTexts q.back) v where
  read rest hrest := readValue_of_leaf depth (h rest hrest)
  starts := by
    obtain ⟨c, t, htext, hc, -⟩ := readLeaf_starts (h [] ends_nil)
    rw [List.append_nil] at htext
    rw [htext]
    exact startsValue_of_not_mem hc t

theorem memberText_head (m : Str × JsonValue) : ∃ t, memberText q m = cp '\x22' :: t := by
  obtain ⟨body, hquote, -⟩ := q.reads m.1
  exact ⟨_, by rw [memberText, hquote, List.cons_append]⟩

theorem element_member {depth : ℕ} {m : Str × JsonValue}
    (h : Element (readValue depth) (write q) (mapTexts q.back) m.2) :
    Element (readMember (readValue depth)) (memberText q) (memberBack q) m where
  read rest hrest := by
    obtain ⟨body, hquote, hread⟩ := q.reads m.1
    have hsplit : memberText q m ++ rest = cp '\x22' :: (body ++ cp ':' :: (write q m.2 ++ rest)) := by
      simp only [memberText, hquote, List.cons_append, List.append_assoc]
    have hcolon : skipBlanks (cp ':' :: (write q m.2 ++ rest)) = cp ':' :: (write q m.2 ++ rest) :=
      skipBlanks_cons (by decide) _
    have hvalue := h.read rest hrest
    rw [hsplit]
    unfold readMember
    simp only [expect, if_true, bind, Except.bind, hread, hcolon, skipBlanks_starts h.starts, hvalue]
    rfl
  starts := by
    obtain ⟨t, htext⟩ := memberText_head (q := q) m
    rw [htext]
    exact startsValue_of_not_mem (c := cp '\x22') (by decide) t

theorem Tame.element {depth : ℕ} {v : JsonValue} (h : Tame depth v) :
    Element (readValue depth) (write q) (mapTexts q.back) v := by
  induction h with
  | null => exact element_of_leaf fun rest _ => rfl
  | bool b =>
    refine element_of_leaf fun rest _ => ?_
    cases b <;> rfl
  | int hshort => exact element_of_leaf fun rest hrest => readLeaf_int hshort hrest
  | float hback => exact element_of_leaf hback
  | str s => exact element_of_leaf fun rest _ => readLeaf_quote q s rest
  | @arr depth items _ ih =>
    refine ⟨fun rest _ => ?_, ?_⟩
    · cases items with
      | nil =>
        show readNested (readValue depth) (cp '[' :: cp ']' :: rest) = _
        rw [readNested, if_neg (by decide), if_pos rfl, readItems_nil _ (.inl rfl)]
        rfl
      | cons x xs =>
        have hfirst : ∀ c t, write q x = c :: t → c ≠ cp ']' := by
          obtain ⟨d, u, htext, -, hd, -⟩ := (ih x List.mem_cons_self).starts
          intro c t hc
          rw [(List.cons.inj (hc.symm.trans htext)).1]
          exact hd
        have hitems := readItems_tailText (.inl rfl) x xs hfirst ih rest
        rw [readValue, write, writeItems_eq, List.cons_append, List.append_assoc, readNested,
          if_neg (by decide), if_pos rfl, hitems, mapTexts, mapItems_eq]
        rfl
    · cases items with
      | nil => exact ⟨_, _, rfl, by decide⟩
      | cons x xs => exact ⟨_, _, rfl, by decide⟩
  | @obj depth members _ ih =>
    have hmembers : ∀ m ∈ members,
        Element (readMember (readValue depth)) (memberText q) (memberBack q) m :=
      fun m hm => element_member (ih m hm)
    refine ⟨fun rest _ => ?_, ?_⟩
    · cases members with
      | nil =>
        show readNested (readValue depth) (cp '\x7b' :: cp '\x7d' :: rest) = _
        rw [readNested, if_pos rfl, readItems_nil _ (.inr rfl)]
        rfl
      | cons m ms =>
        have hfirst : ∀ c t, memberText q m = c :: t → c ≠ cp '\x7d' := by
          obtain ⟨u, htext⟩ := memberText_head (q := q) m
          intro c t hc
          rw [(List.cons.inj (hc.symm.trans htext)).1]
          decide
        have hitems := readItems_tailText (.inr rfl) m ms hfirst hmembers rest
        have hsplit : write q (.obj (m :: ms)) ++ rest =
            cp '\x7b' :: (memberText q m ++ (tailText (memberText q) (cp '\x7d') ms ++ rest)) := by
          simp only [write, writeMembers_eq, memberText, List.cons_append, List.append_assoc]
        rw [hsplit, readValue, readNested, if_pos rfl, hitems, mapTexts, mapMembers_eq]
        rfl
    · cases members with
      | nil => exact ⟨_, _, rfl, by decide⟩
      | cons m ms => exact ⟨_, _, rfl, by decide⟩

theorem loads_write {depth : ℕ} {v : JsonValue} (h : Tame depth v) :
    loads depth (write q v) = .ok (mapTexts q.back v) := by
  have helement := h.element (q := q)
  have hread := helement.read [] ends_nil
  have hskip := skipBlanks_starts helement.starts []
  rw [List.append_nil] at hread hskip
  have hmark : (write q v).head? ≠ some (Fin.ofNat 0x110000 0xfeff) := by
    obtain ⟨c, t, htext, -, -, hc⟩ := helement.starts
    rw [htext, List.head?_cons, Ne, Option.some_inj]
    exact hc
  unfold loads
  rw [if_neg hmark, hskip, hread]
  rfl

end Nested

mutual

theorem mapTexts_id : ∀ v : JsonValue, mapTexts (fun s => s) v = v
  | .null => rfl
  | .bool _ => rfl
  | .int _ => rfl
  | .float _ => rfl
  | .str _ => rfl
  | .arr items => by rw [mapTexts, mapItems_id items]
  | .obj members => by rw [mapTexts, mapMembers_id members]

theorem mapItems_id : ∀ xs : List JsonValue, mapItems (fun s => s) xs = xs
  | [] => rfl
  | x :: xs => by rw [mapItems, mapTexts_id x, mapItems_id xs]

theorem mapMembers_id : ∀ xs : List (Str × JsonValue), mapMembers (fun s => s) xs = xs
  | [] => rfl
  | (k, x) :: xs => by rw [mapMembers, mapTexts_id x, mapMembers_id xs]

end

theorem loads_keepChars {depth : ℕ} {v : JsonValue} (h : Tame depth v) :
    loads depth (write keepChars v) = .ok v := by
  rw [loads_write h]
  exact congrArg Except.ok (mapTexts_id v)

theorem write_inj {depth : ℕ} {v w : JsonValue} (hv : Tame depth v) (hw : Tame depth w)
    (h : write keepChars v = write keepChars w) : v = w := by
  have hread := loads_keepChars hv
  rw [h, loads_keepChars hw] at hread
  exact (Except.ok.inj hread).symm

mutual

def texts : JsonValue → List Str
  | .str s => [s]
  | .float text => [floatText text]
  | .arr items => itemTexts items
  | .obj members => memberTexts members
  | _ => []

def itemTexts : List JsonValue → List Str
  | [] => []
  | x :: xs => texts x ++ itemTexts xs

def memberTexts : List (Str × JsonValue) → List Str
  | [] => []
  | (k, x) :: xs => k :: (texts x ++ memberTexts xs)

end

theorem plain_append_iff {s t : Str} : PyRepr.Plain (s ++ t) ↔ PyRepr.Plain s ∧ PyRepr.Plain t :=
  List.forall_mem_append

theorem plain_cons_iff {c : CodePoint} {s : Str} :
    PyRepr.Plain (c :: s) ↔ PyRepr.isSurrogate c = false ∧ PyRepr.Plain s :=
  List.forall_mem_cons

theorem escapeChar_wide {c : CodePoint} (h : 0x7f ≤ c.val) : escapeChar c = [c] := by
  unfold escapeChar
  cases hlookup : shortEscapes.lookup c.val with
  | some d =>
    have hmem := mem_of_lookup hlookup
    simp only [shortEscapes, List.mem_cons, Prod.mk.injEq, List.not_mem_nil, or_false] at hmem
    omega
  | none => exact if_neg (by omega)

theorem surrogate_escapeChar {c : CodePoint} (h : PyRepr.isSurrogate c = true) : escapeChar c = [c] := by
  have hrange : 0xd800 ≤ c.val := by
    simp only [PyRepr.isSurrogate, inRanges, List.any_cons, List.any_nil, Bool.or_false,
      Bool.and_eq_true, decide_eq_true_eq] at h
    exact h.1
  exact escapeChar_wide (by omega)

theorem plain_quoted_iff {s : Str} : PyRepr.Plain (quoted s) ↔ PyRepr.Plain s := by
  refine ⟨fun h c hc => ?_, plain_quoted⟩
  by_contra hsurrogate
  rw [Bool.not_eq_false] at hsurrogate
  have hmem : c ∈ quoted s := by
    refine List.mem_cons_of_mem _ (List.mem_append_left _ (List.mem_flatMap.mpr ⟨c, hc, ?_⟩))
    rw [surrogate_escapeChar hsurrogate]
    exact List.mem_singleton_self c
  rw [h c hmem] at hsurrogate
  cases hsurrogate

theorem plain_keepChars_iff {s : Str} : PyRepr.Plain (keepChars.quote s) ↔ PyRepr.Plain s :=
  plain_quoted_iff

theorem plain_intDigits (z : ℤ) : PyRepr.Plain (intDigits z) := by
  unfold intDigits
  split
  · exact plain_cons_iff.mpr ⟨by decide, plain_natText _⟩
  · exact plain_natText _

mutual

theorem plain_write_iff : ∀ v : JsonValue, PyRepr.Plain (write keepChars v) ↔ ∀ s ∈ texts v, PyRepr.Plain s
  | .null => iff_of_true (PyRepr.plain_txt _) nofun
  | .bool true => iff_of_true (PyRepr.plain_txt _) nofun
  | .bool false => iff_of_true (PyRepr.plain_txt _) nofun
  | .int z => iff_of_true (plain_intDigits z) nofun
  | .float text => by simp [write, texts]
  | .str s => by simp [write, texts, keepChars, plain_quoted_iff]
  | .arr [] => iff_of_true (by decide) nofun
  | .arr (x :: xs) => by
    have hbracket : PyRepr.isSurrogate (cp '[') = false := by decide
    simp only [write, texts, itemTexts, plain_cons_iff, plain_append_iff, List.forall_mem_append,
      plain_write_iff x, plain_writeItems_iff xs, hbracket, true_and]
  | .obj [] => iff_of_true (by decide) nofun
  | .obj ((k, x) :: xs) => by
    have hbrace : PyRepr.isSurrogate (cp '\x7b') = false := by decide
    have hcolon : PyRepr.isSurrogate (cp ':') = false := by decide
    simp only [write, texts, memberTexts, plain_cons_iff, plain_append_iff, List.forall_mem_cons,
      List.forall_mem_append, plain_keepChars_iff, plain_write_iff x, plain_writeMembers_iff xs, hbrace,
      hcolon, true_and]

theorem plain_writeItems_iff : ∀ xs : List JsonValue,
    PyRepr.Plain (writeItems keepChars xs) ↔ ∀ s ∈ itemTexts xs, PyRepr.Plain s
  | [] => iff_of_true (by decide) nofun
  | x :: xs => by
    have hcomma : PyRepr.isSurrogate (cp ',') = false := by decide
    simp only [writeItems, itemTexts, plain_cons_iff, plain_append_iff, List.forall_mem_append,
      plain_write_iff x, plain_writeItems_iff xs, hcomma, true_and]

theorem plain_writeMembers_iff : ∀ xs : List (Str × JsonValue),
    PyRepr.Plain (writeMembers keepChars xs) ↔ ∀ s ∈ memberTexts xs, PyRepr.Plain s
  | [] => iff_of_true (by decide) nofun
  | (k, x) :: xs => by
    have hcomma : PyRepr.isSurrogate (cp ',') = false := by decide
    have hcolon : PyRepr.isSurrogate (cp ':') = false := by decide
    simp only [writeMembers, memberTexts, plain_cons_iff, plain_append_iff, List.forall_mem_cons,
      List.forall_mem_append, plain_keepChars_iff, plain_write_iff x, plain_writeMembers_iff xs, hcomma,
      hcolon, true_and]

end

end JsonText
