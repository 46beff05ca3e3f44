import TexGovernance.Lib.PyJson
import TexGovernance.Lib.PyRepr

/-!
# JSON texts that keep their characters

`json.dumps(.., ensure_ascii=False)` of a flat object: only the quote, the
backslash and the control characters below U+0020 are escaped, so a document
without lone surrogates stays without them and takes a single line.
-/

namespace JsonDoc
open PyStr PyBytes PyCodec PyJson PyRepr

inductive Scalar where
  | null
  | count (n : ℕ)
  | str (s : Str)
  deriving DecidableEq

def escapeChar (c : CodePoint) : Str :=
  match shortEscapes.lookup c.val with
  | some d => [cp '\x5c', d]
  | none => if c.val < 0x20 then cp '\x5c' :: cp 'u' :: hexPad 4 c.val else [c]

def quoted (s : Str) : Str := cp '\x22' :: s.flatMap escapeChar ++ [cp '\x22']

def writeScalar : Scalar → Str
  | .null => txt "null"
  | .count n => natText n
  | .str s => quoted s

def writeMember (m : Str × Scalar) : Str := quoted m.1 ++ cp ':' :: writeScalar m.2

def writeMembers : List (Str × Scalar) → Str
  | [] => [cp '\x7d']
  | m :: rest => cp ',' :: (writeMember m ++ writeMembers rest)

def writeObject : List (Str × Scalar) → Str
  | [] => [cp '\x7b', cp '\x7d']
  | m :: rest => cp '\x7b' :: (writeMember m ++ writeMembers rest)

def Scalar.Plain : Scalar → Prop
  | .str s => PyRepr.Plain s
  | _ => True

theorem plain_shortEscape {n : ℕ} {d : CodePoint} (h : shortEscapes.lookup n = some d) :
    isSurrogate d = false := by
  have hall : ∀ e ∈ shortEscapes, isSurrogate e.2 = false := by decide
  exact hall _ (mem_of_lookup h)

theorem plain_singleton {c : CodePoint} (h : isSurrogate c = false) : PyRepr.Plain [c] :=
  Plain.cons h fun _ hd => absurd hd List.not_mem_nil

theorem plain_escapeChar {c : CodePoint} (h : isSurrogate c = false) : PyRepr.Plain (escapeChar c) := by
  unfold escapeChar
  split
  · next d hd => exact Plain.cons (isSurrogate_cp _) (plain_singleton (plain_shortEscape hd))
  · split
    · exact Plain.cons (isSurrogate_cp _) (Plain.cons (isSurrogate_cp _) (plain_hexPad 4 _))
    · exact plain_singleton h

theorem plain_quoted {s : Str} (h : PyRepr.Plain s) : PyRepr.Plain (quoted s) := by
  refine Plain.append (Plain.cons (isSurrogate_cp _) ?_) (plain_singleton (isSurrogate_cp _))
  intro c hc
  obtain ⟨d, hd, hcd⟩ := List.mem_flatMap.mp hc
  exact plain_escapeChar (h d hd) c hcd

theorem plain_natText (n : ℕ) : PyRepr.Plain (natText n) := by
  intro c hc
  obtain ⟨d, -, rfl⟩ := List.mem_map.mp hc
  exact isSurrogate_cp d

theorem plain_writeMember {m : Str × Scalar} (hkey : PyRepr.Plain m.1) (hvalue : m.2.Plain) :
    PyRepr.Plain (writeMember m) := by
  refine Plain.append (plain_quoted hkey) (Plain.cons (isSurrogate_cp _) ?_)
  obtain ⟨k, v⟩ := m
  cases v with
  | null => exact plain_txt _
  | count n => exact plain_natText n
  | str s => exact plain_quoted hvalue

theorem plain_writeMembers {members : List (Str × Scalar)}
    (h : ∀ m ∈ members, PyRepr.Plain m.1 ∧ m.2.Plain) : PyRepr.Plain (writeMembers members) := by
  induction members with
  | nil => exact plain_singleton (isSurrogate_cp _)
  | cons m rest ih =>
    obtain ⟨hm, hrest⟩ := List.forall_mem_cons.mp h
    exact Plain.cons (isSurrogate_cp _) ((plain_writeMember hm.1 hm.2).append (ih hrest))

theorem plain_writeObject {members : List (Str × Scalar)}
    (h : ∀ m ∈ members, PyRepr.Plain m.1 ∧ m.2.Plain) : PyRepr.Plain (writeObject members) := by
  cases members with
  | nil => exact Plain.cons (isSurrogate_cp _) (plain_singleton (isSurrogate_cp _))
  | cons m rest =>
    obtain ⟨hm, hrest⟩ := List.forall_mem_cons.mp h
    exact Plain.cons (isSurrogate_cp _)
      ((plain_writeMember hm.1 hm.2).append (plain_writeMembers hrest))

def Printable (s : Str) : Prop := ∀ c ∈ s, 0x20 ≤ c.val

theorem Printable.append {s t : Str} (hs : Printable s) (ht : Printable t) : Printable (s ++ t) := by
  intro c hc
  rcases List.mem_append.mp hc with hc | hc
  · exact hs c hc
  · exact ht c hc

theorem Printable.cons {c : CodePoint} {s : Str} (hc : 0x20 ≤ c.val) (hs : Printable s) :
    Printable (c :: s) := List.forall_mem_cons.mpr ⟨hc, hs⟩

theorem printable_nil : Printable [] := fun _ h => absurd h List.not_mem_nil

theorem printable_hexPad (width n : ℕ) : Printable (hexPad width n) := by
  induction width with
  | zero => exact printable_nil
  | succ width ih =>
    refine Printable.cons ?_ ih
    have hlt : n / 16 ^ width % 16 < 16 := Nat.mod_lt _ (by decide)
    generalize n / 16 ^ width % 16 = d at hlt
    interval_cases d <;> decide

theorem printable_escapeChar (c : CodePoint) : Printable (escapeChar c) := by
  have hall : ∀ e ∈ shortEscapes, 0x20 ≤ e.2.val := by decide
  have hslash : 0x20 ≤ (cp '\x5c').val := by decide
  unfold escapeChar
  split
  · next d hd => exact Printable.cons hslash (Printable.cons (hall _ (mem_of_lookup hd)) printable_nil)
  · split
    · exact Printable.cons hslash (Printable.cons (by decide) (printable_hexPad 4 _))
    · next hc => exact Printable.cons (not_lt.mp hc) printable_nil

theorem printable_quoted (s : Str) : Printable (quoted s) := by
  have hquote : 0x20 ≤ (cp '\x22').val := by decide
  refine Printable.append (Printable.cons hquote ?_) (Printable.cons hquote printable_nil)
  intro c hc
  obtain ⟨d, -, hcd⟩ := List.mem_flatMap.mp hc
  exact printable_escapeChar d c hcd

theorem printable_natText (n : ℕ) : Printable (natText n) := by
  intro c hc
  have hrange := mem_natText hc
  omega

theorem printable_writeMember (m : Str × Scalar) : Printable (writeMember m) := by
  obtain ⟨k, v⟩ := m
  refine Printable.append (printable_quoted k) (Printable.cons (by decide) ?_)
  cases v with
  | null =>
    have hletters : ∀ d ∈ ['n', 'u', 'l', 'l'], 0x20 ≤ (cp d).val := by
      simp only [List.forall_mem_cons]
      exact ⟨by decide, by decide, by decide, by decide, List.forall_mem_nil _⟩
    intro c hc
    obtain ⟨d, hd, rfl⟩ := List.mem_map.mp hc
    exact hletters d hd
  | count n => exact printable_natText n
  | str s => exact printable_quoted s

theorem printable_writeMembers (members : List (Str × Scalar)) : Printable (writeMembers members) := by
  induction members with
  | nil => exact Printable.cons (by decide) printable_nil
  | cons m rest ih => exact Printable.cons (by decide) ((printable_writeMember m).append ih)

theorem printable_writeObject (members : List (Str × Scalar)) : Printable (writeObject members) := by
  cases members with
  | nil => exact Printable.cons (by decide) (Printable.cons (by decide) printable_nil)
  | cons m rest =>
    exact Printable.cons (by decide) ((printable_writeMember m).append (printable_writeMembers rest))

theorem writeMembers_last (members : List (Str × Scalar)) :
    ∃ t, writeMembers members = t ++ [cp '\x7d'] := by
  induction members with
  | nil => exact ⟨[], rfl⟩
  | cons m rest ih =>
    obtain ⟨t, ht⟩ := ih
    exact ⟨cp ',' :: (writeMember m ++ t), by rw [writeMembers, ht]; simp⟩

theorem strip_writeObject (members : List (Str × Scalar)) :
    strip (writeObject members) = writeObject members := by
  obtain ⟨t, ht⟩ : ∃ t, writeObject members = cp '\x7b' :: (t ++ [cp '\x7d']) := by
    cases members with
    | nil => exact ⟨[], rfl⟩
    | cons m rest =>
      obtain ⟨t, ht⟩ := writeMembers_last rest
      exact ⟨writeMember m ++ t, by rw [writeObject, ht, List.append_assoc]⟩
  have hopen : ¬isspace (cp '\x7b') = true := by decide
  have hclose : ¬isspace (cp '\x7d') = true := by decide
  rw [ht, strip, List.dropWhile_cons_of_neg hopen, ← List.cons_append,
    List.rdropWhile_concat_neg _ _ _ hclose]

end JsonDoc
