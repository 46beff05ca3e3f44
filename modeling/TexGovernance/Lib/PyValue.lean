import TexGovernance.Lib.JsonAscii
import TexGovernance.Lib.TextFile
import Mathlib.Data.Rat.Defs

/-!
# Values that JSON gave

What Python does with the values a JSON text was read into: lookups, truth, `str`, `int`,
and comparisons with a text or a number. What floats, containers and the numerals in a text
come to is left to the interpreter.
-/

namespace PyValue
open PyStr PyBytes PyCodec JsonLoads JsonText
open PyJson (intText)
open PyRepr (utf8 Plain)

inductive Raised where
  | typeError
  | keyError
  | py (e : PyErr)
  deriving DecidableEq

/-- What `except ValueError` catches. -/
def Raised.isValueError : Raised → Bool
  | .py .valueError | .py .unicodeEncodeError => true
  | _ => false

def raising {α : Type} (x : Except PyErr α) : Except Raised α := x.mapError .py

@[simp] theorem raising_ok {α : Type} (a : α) : raising (.ok a) = .ok a := rfl

abbrev Members := List (Str × JsonValue)

structure Interpreter where
  /-- The nesting that the recursion limit admits inside two containers. -/
  frames : ℕ
  /-- The text that `json.loads` takes bytes for. -/
  detect : Bytes → Except PyErr Str
  detect_ascii : ∀ s : Str, Visible s → detect (utf8 s) = .ok s
  intOfFloat : Str → Except Raised ℤ
  intOfText : Str → Except Raised ℤ
  floatTrue : Str → Bool
  floatIs : Str → ℤ → Bool
  /-- `str` of a float, a list or a dict. -/
  display : JsonValue → Str

theorem plain_of_visible {s : Str} (h : Visible s) : Plain s := fun c hc =>
  PyRepr.isSurrogate_of_lt (lt_trans (h c hc).2 (by decide))

/-- Of texts in UTF-8, without floats and without numerals in texts. -/
def plainInterpreter : Interpreter where
  frames := 20
  detect := TextFile.utf8Decode
  detect_ascii _ h := TextFile.utf8Decode_eq_ok_iff.mpr (PyRepr.utf8Encode_eq (plain_of_visible h))
  intOfFloat _ := .error (.py .valueError)
  intOfText _ := .error (.py .valueError)
  floatTrue _ := true
  floatIs _ _ := false
  display _ := []

def get? (name : Str) (members : Members) : Option JsonValue := members.reverse.lookup name

def getOr (name : Str) (default : JsonValue) (members : Members) : JsonValue :=
  (get? name members).getD default

/-- `dict.get` without a default. -/
def get (name : Str) (members : Members) : JsonValue := getOr name .null members

theorem get?_eq_some_iff {members : Members} (hnodup : (members.map Prod.fst).Nodup) {name : Str}
    {v : JsonValue} : get? name members = some v ↔ (name, v) ∈ members := by
  have hreverse : (members.reverse.map Prod.fst).Nodup := by
    rw [List.map_reverse]
    exact List.nodup_reverse.mpr hnodup
  unfold get?
  rw [← List.mem_reverse]
  generalize members.reverse = reversed at hreverse
  induction reversed with
  | nil => simp
  | cons m rest ih =>
    obtain ⟨k, w⟩ := m
    obtain ⟨hnot, hrest⟩ := List.nodup_cons.mp hreverse
    rw [List.lookup_cons, List.mem_cons, Prod.mk.injEq]
    by_cases hname : name = k
    · subst hname
      have habsent : (name, v) ∉ rest := fun hmem => hnot (List.mem_map.mpr ⟨_, hmem, rfl⟩)
      simp only [beq_self_eq_true, Option.some.injEq, habsent, true_and, or_false]
      exact eq_comm
    · rw [beq_false_of_ne hname]
      simp only [hname, false_and, false_or]
      exact ih hrest

theorem get?_of_perm {members others : Members} (h : members.Perm others)
    (hnodup : (members.map Prod.fst).Nodup) (name : Str) : get? name members = get? name others := by
  have hothers : (others.map Prod.fst).Nodup := (h.map Prod.fst).nodup_iff.mp hnodup
  refine Option.ext fun v => ?_
  rw [get?_eq_some_iff hnodup, get?_eq_some_iff hothers, h.mem_iff]

theorem get?_map (f : JsonValue → JsonValue) (members : Members) (name : Str) :
    get? name (members.map fun m => (m.1, f m.2)) = (get? name members).map f := by
  unfold get?
  rw [← List.map_reverse]
  generalize members.reverse = reversed
  induction reversed with
  | nil => rfl
  | cons m rest ih =>
    rw [List.map_cons, List.lookup_cons, List.lookup_cons]
    cases name == m.1 with
    | true => rfl
    | false => exact ih

variable (py : Interpreter)

/-- The truth of a value. -/
def truthy : JsonValue → Bool
  | .null => false
  | .bool b => b
  | .int z => z ≠ 0
  | .float text => py.floatTrue text
  | .str s => !s.isEmpty
  | .arr items => !items.isEmpty
  | .obj members => !members.isEmpty

def str : JsonValue → Except Raised Str
  | .null => .ok (txt "None")
  | .bool true => .ok (txt "True")
  | .bool false => .ok (txt "False")
  | .int z => raising (intText z)
  | .str s => .ok s
  | v => .ok (py.display v)

def int : JsonValue → Except Raised ℤ
  | .bool b => .ok b.toNat
  | .int z => .ok z
  | .float text => py.intOfFloat text
  | .str s => py.intOfText s
  | _ => .error .typeError

def isText (v : JsonValue) (s : Str) : Bool :=
  match v with
  | .str t => t = s
  | _ => false

/-- `v == n`; `True` and `1.0` are equal to `1` too. -/
def isInt (v : JsonValue) (n : ℤ) : Bool :=
  match v with
  | .bool b => (b.toNat : ℤ) = n
  | .int z => z = n
  | .float text => py.floatIs text n
  | _ => false

/-- `value or ""`. -/
def orEmpty (v : JsonValue) : JsonValue := if truthy py v then v else .str []

def isAscii (s : Str) : Bool := s.all fun c => c.val < 0x80

/-- `hmac.compare_digest` of two texts. -/
def compareDigest (s t : Str) : Except Raised Bool :=
  if isAscii s ∧ isAscii t then .ok (s = t) else .error .typeError

def loads (bytes : Bytes) : Except Raised JsonValue := do
  let text ← raising (py.detect bytes)
  raising (JsonLoads.loads (py.frames + 2) text)

mutual

/-- Whether `int.__repr__` gives the numerals of every integer. -/
def shortInts : JsonValue → Bool
  | .int z => (natText z.natAbs).length ≤ maxStrDigits
  | .arr items => shortItems items
  | .obj members => shortMembers members
  | _ => true

def shortItems : List JsonValue → Bool
  | [] => true
  | x :: xs => shortInts x && shortItems xs

def shortMembers : Members → Bool
  | [] => true
  | (_, x) :: xs => shortInts x && shortMembers xs

end

/-- `json.dumps(v, sort_keys=True, separators=(",", ":"))`. -/
def dumps (q : Quoting) (v : JsonValue) : Except Raised Str :=
  if shortInts v then .ok (JsonText.dumps q v) else .error (.py .valueError)

/-- `text.encode("ascii")`. -/
def asciiEncode (text : Str) : Except Raised Bytes :=
  if isAscii text then .ok (utf8 text) else .error (.py .unicodeEncodeError)

/-- `text.partition(c)`, but for the separator. -/
def partition (c : CodePoint) (text : Str) : Str × Str :=
  (text.takeWhile fun d => d ≠ c, (text.dropWhile fun d => d ≠ c).drop 1)

inductive Clock where
  | at (t : ℚ)
  | nan
  | infinite
  deriving DecidableEq

/-- `int` of it. -/
def Clock.int : Clock → Except Raised ℤ
  | .at t => .ok (t.num.tdiv t.den)
  | .nan => .error (.py .valueError)
  | .infinite => .error (.py .overflowError)

theorem isText_iff {v : JsonValue} {s : Str} : isText v s = true ↔ v = .str s := by
  cases v <;> simp [isText]

theorem isAscii_of_visible {s : Str} (h : Visible s) : isAscii s = true := by
  rw [isAscii, List.all_eq_true]
  intro c hc
  have hbound := (h c hc).2
  exact decide_eq_true (by omega)

theorem isAscii_append {s t : Str} : isAscii (s ++ t) = true ↔ isAscii s = true ∧ isAscii t = true := by
  unfold isAscii
  rw [List.all_append, Bool.and_eq_true]

theorem isAscii_back (s : Str) : isAscii (asciiOnly.back s) = isAscii s := by
  have hiff := back_narrow_iff s
  rw [Bool.eq_iff_iff]
  simpa [isAscii, List.all_eq_true] using hiff

theorem compareDigest_ascii {s t : Str} (hs : isAscii s = true) (ht : isAscii t = true) :
    compareDigest s t = .ok (decide (s = t)) :=
  if_pos ⟨hs, ht⟩

theorem compareDigest_true {s t : Str} (h : compareDigest s t = .ok true) : s = t ∧ isAscii t = true := by
  unfold compareDigest at h
  split at h
  · next hascii => exact ⟨of_decide_eq_true (Except.ok.inj h), hascii.2⟩
  · cases h

theorem plain_of_isAscii {s : Str} (h : isAscii s = true) : Plain s := fun c hc =>
  PyRepr.isSurrogate_of_lt (lt_trans (of_decide_eq_true (List.all_eq_true.mp h c hc)) (by decide))

theorem loads_visible {v : JsonValue} (h : Tame (py.frames + 2) v) :
    loads py (utf8 (write asciiOnly v)) = .ok (mapTexts asciiOnly.back v) := by
  have hread := loads_write (q := asciiOnly) h
  unfold loads
  rw [py.detect_ascii _ h.visible]
  exact congrArg raising hread

theorem sortMembers_eq (members : Members) :
    sortMembers members = members.map fun m : Str × JsonValue => (m.1, sortKeys m.2) := by
  induction members with
  | nil => rfl
  | cons m rest ih => rw [sortMembers, List.map_cons, ih]

theorem byName_perm (members : Members) : (byName members).Perm members := List.perm_insertionSort _ _

theorem get?_back {members : Members} (hnodup : (members.map Prod.fst).Nodup)
    (hplain : ∀ m ∈ members, Plain m.1) (name : Str) :
    get? name (mapMembers asciiOnly.back (byName (sortMembers members))) =
      (get? name members).map fun v => mapTexts asciiOnly.back (sortKeys v) := by
  have hnames : (sortMembers members).map Prod.fst = members.map Prod.fst := by
    rw [sortMembers_eq, List.map_map]
    rfl
  have hsorted : ((byName (sortMembers members)).map Prod.fst).Nodup := by
    rw [((byName_perm _).map Prod.fst).nodup_iff, hnames]
    exact hnodup
  have hback : mapMembers asciiOnly.back (byName (sortMembers members)) =
      (byName (sortMembers members)).map fun m => (m.1, mapTexts asciiOnly.back m.2) := by
    rw [mapMembers_eq]
    refine List.map_congr_left fun m hm => ?_
    have hmem : m ∈ sortMembers members := (byName_perm _).mem_iff.mp hm
    rw [sortMembers_eq] at hmem
    obtain ⟨m', hm', rfl⟩ := List.mem_map.mp hmem
    exact congrArg (fun k => (k, _)) (back_of_plain (hplain m' hm'))
  rw [hback, get?_map, get?_of_perm (byName_perm _) hsorted, sortMembers_eq, get?_map, Option.map_map]
  rfl

mutual

theorem shortInts_of_tame : ∀ {v : JsonValue} {depth : ℕ}, Tame depth v → shortInts v = true
  | .null, _, _ => rfl
  | .bool _, _, _ => rfl
  | .int _, _, .int h => decide_eq_true h
  | .float _, _, _ => rfl
  | .str _, _, _ => rfl
  | .arr _, _, .arr h => shortItems_of_tame h
  | .obj _, _, .obj h => shortMembers_of_tame h

theorem shortItems_of_tame : ∀ {items : List JsonValue} {depth : ℕ}, (∀ x ∈ items, Tame depth x) →
    shortItems items = true
  | [], _, _ => rfl
  | x :: xs, _, h => by
    obtain ⟨hx, hxs⟩ := List.forall_mem_cons.mp h
    rw [shortItems, shortInts_of_tame hx, shortItems_of_tame hxs]
    rfl

theorem shortMembers_of_tame : ∀ {members : Members} {depth : ℕ}, (∀ m ∈ members, Tame depth m.2) →
    shortMembers members = true
  | [], _, _ => rfl
  | (_, x) :: xs, _, h => by
    obtain ⟨hx, hxs⟩ := List.forall_mem_cons.mp h
    rw [shortMembers, shortInts_of_tame hx, shortMembers_of_tame hxs]
    rfl

end

mutual

theorem tame_sortKeys : ∀ {v : JsonValue} {depth : ℕ}, Tame depth v → Tame depth (sortKeys v)
  | .null, _, h => h
  | .bool _, _, h => h
  | .int _, _, h => h
  | .float _, _, h => h
  | .str _, _, h => h
  | .arr _, _, .arr h => .arr (tame_sortItems h)
  | .obj _, _, .obj h => .obj fun m hm =>
    tame_sortMembers h m ((byName_perm _).mem_iff.mp hm)

theorem tame_sortItems : ∀ {items : List JsonValue} {depth : ℕ}, (∀ x ∈ items, Tame depth x) →
    ∀ x ∈ sortItems items, Tame depth x
  | [], _, _ => fun _ hx => absurd hx List.not_mem_nil
  | x :: xs, _, h => by
    obtain ⟨hx, hxs⟩ := List.forall_mem_cons.mp h
    exact List.forall_mem_cons.mpr ⟨tame_sortKeys hx, tame_sortItems hxs⟩

theorem tame_sortMembers : ∀ {members : Members} {depth : ℕ}, (∀ m ∈ members, Tame depth m.2) →
    ∀ m ∈ sortMembers members, Tame depth m.2
  | [], _, _ => fun _ hm => absurd hm List.not_mem_nil
  | (k, x) :: xs, _, h => by
    obtain ⟨hx, hxs⟩ := List.forall_mem_cons.mp h
    exact List.forall_mem_cons.mpr ⟨tame_sortKeys hx, tame_sortMembers hxs⟩

end

theorem partition_append {c : CodePoint} {s : Str} (h : c ∉ s) (t : Str) :
    partition c (s ++ c :: t) = (s, t) := by
  have hkeep : ∀ d ∈ s, decide (d ≠ c) = true := fun d hd => decide_eq_true fun heq => h (heq ▸ hd)
  have hstop : decide (c ≠ c) = false := decide_eq_false fun hne => hne rfl
  unfold partition
  rw [List.takeWhile_append_of_pos hkeep, List.dropWhile_append_of_pos hkeep, List.takeWhile_cons,
    List.dropWhile_cons, hstop]
  simp

theorem partition_join {c : CodePoint} {s : Str} (h : c ∈ s) :
    s = (partition c s).1 ++ c :: (partition c s).2 := by
  induction s with
  | nil => exact absurd h List.not_mem_nil
  | cons d s ih =>
    unfold partition at ih ⊢
    by_cases hd : d = c
    · subst hd
      simp
    · have hrest : c ∈ s := (List.mem_cons.mp h).resolve_left fun heq => hd heq.symm
      have hkeep : decide (d ≠ c) = true := decide_eq_true hd
      rw [List.takeWhile_cons, List.dropWhile_cons, if_pos hkeep, if_pos hkeep]
      exact congrArg (d :: ·) (ih hrest)

end PyValue
