import TexGovernance.Lib.PyRepr

/-!
# Text files

Reading a file of UTF-8 bytes in text mode: strict decoding, and the lines under
universal newlines.
-/

namespace TextFile
open PyStr PyBytes PyCodec PyRepr

def decodeLoop : ℕ → Bytes → Except PyErr Str
  | _, [] => .ok []
  | 0, _ :: _ => .error .valueError
  | rounds + 1, b :: bs =>
    match decodeCodePoint (b :: bs) with
    | none => .error .valueError
    | some (n, rest) =>
      if (encodeCodePoint (Fin.ofNat 0x110000 n)).map (· ++ rest) = some (b :: bs) then do
        let s ← decodeLoop rounds rest
        return Fin.ofNat 0x110000 n :: s
      else .error .valueError

/-- `bytes.decode("utf-8")`. -/
def utf8Decode (bs : Bytes) : Except PyErr Str := decodeLoop bs.length bs

theorem decodeLoop_encode {s : Str} {bs : Bytes} (h : utf8Encode s = .ok bs) :
    ∀ rounds, bs.length ≤ rounds → decodeLoop rounds bs = .ok s := by
  induction s generalizing bs with
  | nil =>
    intro rounds _
    rw [← Except.ok.inj h]
    rw [decodeLoop]
  | cons c s ih =>
    obtain ⟨head, tail, hhead, htail, rfl⟩ := utf8Encode_cons c s bs h
    intro rounds hrounds
    have hcode : Fin.ofNat 0x110000 c.val = c := Fin.ext (Nat.mod_eq_of_lt c.isLt)
    have hdecode := decodeCodePoint_encode c head tail hhead
    cases head with
    | nil => exact absurd rfl (encodeCodePoint_ne_nil c [] hhead)
    | cons b head =>
      cases rounds with
      | zero => simp at hrounds
      | succ rounds =>
        have hrest := ih htail rounds (by
          rw [List.length_append, List.length_cons] at hrounds
          omega)
        rw [List.cons_append] at hdecode ⊢
        rw [decodeLoop, hdecode]
        simp only [hcode, hhead, Option.map_some, List.cons_append, if_true, hrest]
        rfl

theorem utf8Decode_encode {s : Str} {bs : Bytes} (h : utf8Encode s = .ok bs) :
    utf8Decode bs = .ok s := decodeLoop_encode h _ le_rfl

theorem encode_decodeLoop (rounds : ℕ) : ∀ (bs : Bytes) (s : Str), decodeLoop rounds bs = .ok s →
    utf8Encode s = .ok bs := by
  induction rounds with
  | zero =>
    intro bs s h
    cases bs with
    | nil =>
      rw [decodeLoop] at h
      rw [← Except.ok.inj h]
      rfl
    | cons b bs => cases h
  | succ rounds ih =>
    intro bs s h
    cases bs with
    | nil =>
      rw [decodeLoop] at h
      rw [← Except.ok.inj h]
      rfl
    | cons b bs =>
      rw [decodeLoop] at h
      cases hdecode : decodeCodePoint (b :: bs) with
      | none =>
        rw [hdecode] at h
        cases h
      | some found =>
        obtain ⟨n, rest⟩ := found
        rw [hdecode] at h
        simp only at h
        split at h
        · next hencode =>
          obtain ⟨head, hhead, happend⟩ := Option.map_eq_some_iff.mp hencode
          cases htail : decodeLoop rounds rest with
          | error e =>
            rw [htail] at h
            cases h
          | ok t =>
            rw [htail] at h
            have hrest := ih rest t htail
            cases h
            simp only [utf8Encode, hhead, hrest, happend]
        · cases h

theorem utf8Decode_eq_ok_iff {s : Str} {bs : Bytes} : utf8Decode bs = .ok s ↔ utf8Encode s = .ok bs :=
  ⟨encode_decodeLoop _ bs s, utf8Decode_encode⟩

def startLine (c : CodePoint) : List Str → List Str
  | [] => [[c]]
  | l :: rest => (c :: l) :: rest

def splitLines : Str → List Str
  | [] => []
  | c :: rest =>
    if c = cp '\n' then [] :: splitLines rest
    else if c = cp '\r' then
      match rest with
      | [] => [[]]
      | d :: rest => [] :: if d = cp '\n' then splitLines rest else splitLines (d :: rest)
    else startLine c (splitLines rest)

def NoBreak (s : Str) : Prop := ∀ c ∈ s, c ≠ cp '\n' ∧ c ≠ cp '\r'

def Terminated (s : Str) : Prop := ∀ c ∈ s.getLast?, c = cp '\n'

theorem terminated_nil : Terminated [] := nofun

theorem terminated_concat (s : Str) : Terminated (s ++ [cp '\n']) := by
  intro c hc
  rw [List.getLast?_concat, Option.mem_some_iff] at hc
  exact hc.symm

theorem splitLines_plain {c : CodePoint} (hfeed : c ≠ cp '\n') (hreturn : c ≠ cp '\r') (rest : Str) :
    splitLines (c :: rest) = startLine c (splitLines rest) := by
  rw [splitLines.eq_def]
  simp only [if_neg hfeed, if_neg hreturn]

theorem splitLines_ne_nil {s : Str} (h : s ≠ []) : splitLines s ≠ [] := by
  cases s with
  | nil => exact absurd rfl h
  | cons c rest =>
    rw [splitLines.eq_def]
    simp only
    split
    · exact List.cons_ne_nil _ _
    · split
      · split
        · exact List.cons_ne_nil _ _
        · exact List.cons_ne_nil _ _
      · cases splitLines rest with
        | nil => exact List.cons_ne_nil _ _
        | cons l more => exact List.cons_ne_nil _ _

theorem splitLines_line (line : Str) (h : NoBreak line) : splitLines (line ++ [cp '\n']) = [line] := by
  induction line with
  | nil => rfl
  | cons c line ih =>
    obtain ⟨hc, hline⟩ := List.forall_mem_cons.mp h
    rw [List.cons_append, splitLines_plain hc.1 hc.2, ih hline]
    rfl

theorem splitLines_open {line : Str} (h : NoBreak line) (hne : line ≠ []) : splitLines line = [line] := by
  induction line with
  | nil => exact absurd rfl hne
  | cons c line ih =>
    obtain ⟨hc, hline⟩ := List.forall_mem_cons.mp h
    rw [splitLines_plain hc.1 hc.2]
    cases line with
    | nil => rfl
    | cons d line =>
      rw [ih hline (List.cons_ne_nil _ _)]
      rfl

theorem startLine_append (c : CodePoint) {xs : List Str} (h : xs ≠ []) (ys : List Str) :
    startLine c (xs ++ ys) = startLine c xs ++ ys := by
  cases xs with
  | nil => exact absurd rfl h
  | cons x xs => rfl

theorem Terminated.tail {c : CodePoint} {s : Str} (h : Terminated (c :: s)) : Terminated s := by
  cases s with
  | nil => exact terminated_nil
  | cons d s =>
    intro e he
    exact h e (by rw [List.getLast?_cons_cons]; exact he)

theorem splitLines_append {s : Str} (h : Terminated s) (t : Str) :
    splitLines (s ++ t) = splitLines s ++ splitLines t := by
  induction s using splitLines.induct with
  | case1 => rfl
  | case2 rest ih =>
    rw [List.cons_append, splitLines.eq_def (cp '\n' :: (rest ++ t)),
      splitLines.eq_def (cp '\n' :: rest)]
    simp only [if_true, ih h.tail, List.cons_append]
  | case3 hreturn => exact absurd (h (cp '\r') rfl) hreturn
  | case4 d rest hreturn ihfeed ihplain =>
    have hfeed := ihfeed h.tail.tail
    have hplain := ihplain h.tail
    simp only [List.cons_append] at hfeed hplain ⊢
    rw [splitLines.eq_def (cp '\r' :: d :: (rest ++ t)), splitLines.eq_def (cp '\r' :: d :: rest)]
    by_cases hd : d = cp '\n'
    · simp only [if_neg hreturn, if_true, if_pos hd, hfeed, List.cons_append]
    · simp only [if_neg hreturn, if_true, if_neg hd, hplain, List.cons_append]
  | case5 c rest hfeed hreturn ih =>
    have hrest : rest ≠ [] := by
      rintro rfl
      exact hfeed (h c rfl)
    rw [List.cons_append, splitLines_plain hfeed hreturn, splitLines_plain hfeed hreturn, ih h.tail]
    exact startLine_append c (splitLines_ne_nil hrest) _

end TextFile
