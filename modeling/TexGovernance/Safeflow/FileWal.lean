import TexGovernance.Safeflow.Wal
import TexGovernance.Lib.Actions
import TexGovernance.Lib.JsonLoads
import TexGovernance.Lib.TextFile

/-!
# The write-ahead log in a file

`FileWAL` of `safeflow/wal.py` on the bytes of its file; writing does not fail.
Loading reads every line into the cache and compares nothing with the entries
before it.
-/

namespace TexGovernance.Safeflow
open PyStr PyBytes PyCodec PyJson PyRepr PyDict JsonDoc JsonLoads TextFile Actions

/-- What the loader takes from Python and pydantic: what is left of the
recursion limit, and the integers that floats and texts stand for. No integer
comes with more digits than `int` reads. -/
structure Loader where
  depth : ℕ
  intOfFloat : Str → Option ℤ
  intOfText : Str → Option ℤ
  short_float : ∀ t z, intOfFloat t = some z → (natText z.natAbs).length ≤ maxStrDigits
  short_text : ∀ t z, intOfText t = some z → (natText z.natAbs).length ≤ maxStrDigits

variable (load : Loader)

/-- pydantic's `int`. -/
def Loader.intOf : JsonValue → Option ℤ
  | .int z => some z
  | .bool b => some (if b then 1 else 0)
  | .float text => load.intOfFloat text
  | .str s => load.intOfText s
  | _ => none

def countField : Option JsonValue → Except PyErr ℕ
  | none => .error .valueError
  | some v =>
    match load.intOf v with
    | none => .error .valueError
    | some z => if 0 ≤ z then .ok z.toNat else .error .valueError

def textField : Option JsonValue → Except PyErr Str
  | some (.str s) => .ok s
  | _ => .error .valueError

def optionalField : Option JsonValue → Except PyErr (Option Str)
  | none => .ok none
  | some .null => .ok none
  | some (.str s) => .ok (some s)
  | _ => .error .valueError

def kindField : Option JsonValue → Except PyErr WALEntryKind
  | some (.str s) =>
    match WALEntryKind.all.find? fun kind => kind.value = s with
    | some kind => .ok kind
    | none => .error .valueError
  | _ => .error .valueError

def fieldNames : List Str :=
  [txt "args_hash", txt "inverse_op", txt "kind", txt "note", txt "prev_hash", txt "result_hash",
    txt "sequence", txt "step_id", txt "timestamp_ms", txt "tool", txt "txn_id"]

/-- `WALEntry(**data)`; what is no object has no keywords (a `TypeError`). -/
def WALEntry.ofJson : JsonValue → Except PyErr WALEntry
  | .obj members => do
    let data := Dict.ofItems members
    if ∃ k ∈ data.keys, k ∉ fieldNames then throw .valueError
    let sequence ← countField load (data.get? (txt "sequence"))
    let txnId ← textField (data.get? (txt "txn_id"))
    let kind ← kindField (data.get? (txt "kind"))
    let stepId ← optionalField (data.get? (txt "step_id"))
    let tool ← optionalField (data.get? (txt "tool"))
    let argsHash ← optionalField (data.get? (txt "args_hash"))
    let resultHash ← optionalField (data.get? (txt "result_hash"))
    let inverseOp ← optionalField (data.get? (txt "inverse_op"))
    let note ← optionalField (data.get? (txt "note"))
    let timestampMs ← countField load (data.get? (txt "timestamp_ms"))
    let prevHash ← textField (data.get? (txt "prev_hash"))
    WALEntry.make
      { sequence, txnId, kind, stepId, tool, argsHash, resultHash, inverseOp, note, timestampMs,
        prevHash }
  | _ => .error .other

def entryOf (line : Str) : Except PyErr WALEntry := do
  let data ← loads (load.depth + 1) line
  WALEntry.ofJson load data

structure Writable (e : WALEntry) : Prop where
  sequence : (natText e.sequence).length ≤ maxStrDigits
  timestampMs : (natText e.timestampMs).length ≤ maxStrDigits

theorem optionalField_scalar (o : Option Str) :
    optionalField (some (valueOf (WALEntry.optionalScalar o))) = .ok o := by
  cases o with
  | none => rfl
  | some s => rfl

theorem textField_scalar (s : Str) : textField (some (valueOf (.str s))) = .ok s := rfl

theorem kindField_scalar (kind : WALEntryKind) :
    kindField (some (valueOf (.str kind.value))) = .ok kind := by
  cases kind <;> decide

theorem countField_scalar (n : ℕ) : countField load (some (valueOf (.count n))) = .ok n := by
  have hn : (0 : ℤ) ≤ n := Int.natCast_nonneg n
  change (if (0 : ℤ) ≤ n then Except.ok (n : ℤ).toNat else .error .valueError) = .ok n
  rw [if_pos hn, Int.toNat_natCast]

theorem WALEntry.make_fields (e : WALEntry) : WALEntry.make e.toWALFields = .ok e := dif_pos e.valid

theorem WALEntry.fst_members (e : WALEntry) : e.members.map Prod.fst = fieldNames := rfl

theorem WALEntry.get?_members (e : WALEntry) : ∀ m ∈ e.members,
    (Dict.ofItems (e.members.map fun m => (m.1, valueOf m.2))).get? m.1 = some (valueOf m.2) := by
  have hnames : (e.members.map Prod.fst).Nodup := by
    rw [e.fst_members]
    decide
  exact fun m hm => Dict.get?_ofItems_of_nodup (by rw [List.map_map]; exact hnames)
    (List.mem_map_of_mem hm)

theorem WALEntry.ofJson_members (e : WALEntry) :
    WALEntry.ofJson load (.obj (e.members.map fun m => (m.1, valueOf m.2))) = .ok e := by
  have hknown : ¬∃ k ∈ (Dict.ofItems (e.members.map fun m => (m.1, valueOf m.2))).keys,
      k ∉ fieldNames := by
    rintro ⟨k, hk, hunknown⟩
    have hmem := Dict.mem_keys_ofItems hk
    rw [List.map_map] at hmem
    exact hunknown (by rw [← e.fst_members]; exact hmem)
  have hget := e.get?_members
  unfold WALEntry.ofJson
  simp only [if_neg hknown]
  generalize Dict.ofItems (e.members.map fun m => (m.1, valueOf m.2)) = data at hget
  unfold WALEntry.members at hget
  simp only [List.forall_mem_cons, List.not_mem_nil, false_imp_iff, implies_true, and_true] at hget
  obtain ⟨hargs, hinverse, hkind, hnote, hprev, hresult, hsequence, hstep, htimestamp, htool, htxn⟩ :=
    hget
  simp only [hargs, hinverse, hkind, hnote, hprev, hresult, hsequence, hstep, htimestamp, htool, htxn,
    optionalField_scalar, countField_scalar, kindField_scalar, textField_scalar]
  exact e.make_fields

theorem WALEntry.short_members {e : WALEntry} (h : Writable e) : ∀ m ∈ e.members, Short m.2 := by
  have hoptional : ∀ o, Short (WALEntry.optionalScalar o) := by
    intro o
    cases o with
    | none => trivial
    | some s => trivial
  have htext : ∀ s, Short (.str s) := fun _ => trivial
  have hsequence : Short (.count e.sequence) := h.sequence
  have htimestamp : Short (.count e.timestampMs) := h.timestampMs
  unfold WALEntry.members
  simp only [List.forall_mem_cons, List.not_mem_nil, false_imp_iff, implies_true, and_true,
    hoptional, htext, hsequence, htimestamp]

theorem entryOf_payload {e : WALEntry} (h : Writable e) : entryOf load e.canonicalPayload = .ok e := by
  have hne : e.members ≠ [] := List.cons_ne_nil _ _
  have hloads : loads (load.depth + 1) e.canonicalPayload = _ :=
    loads_writeObject load.depth hne (WALEntry.short_members h)
  have hdata : ∀ data, (do
      let data ← (Except.ok data : Except PyErr JsonValue)
      WALEntry.ofJson load data) = WALEntry.ofJson load data := fun _ => rfl
  rw [entryOf, hloads, hdata]
  exact e.ofJson_members load

theorem short_countField {o : Option JsonValue} {n : ℕ} (h : countField load o = .ok n)
    (hshort : ∀ v ∈ o, ShortInt v) : (natText n).length ≤ maxStrDigits := by
  cases o with
  | none => cases h
  | some v =>
    have hint : ∀ z, load.intOf v = some z → (natText z.natAbs).length ≤ maxStrDigits := by
      intro z hz
      cases v with
      | int y =>
        cases hz
        exact hshort (.int z) rfl
      | bool b =>
        cases hz
        cases b <;> decide
      | float text => exact load.short_float text z hz
      | str s => exact load.short_text s z hz
      | _ => cases hz
    unfold countField at h
    simp only at h
    cases hz : load.intOf v with
    | none =>
      rw [hz] at h
      cases h
    | some z =>
      rw [hz] at h
      simp only at h
      split at h
      · rw [← Except.ok.inj h, show z.toNat = z.natAbs by omega]
        exact hint z hz
      · cases h

theorem writable_ofJson {v : JsonValue} {e : WALEntry} (h : WALEntry.ofJson load v = .ok e)
    (hshort : ShortMembers v) : Writable e := by
  cases v with
  | obj members =>
    have hfield : ∀ k, ∀ v ∈ (Dict.ofItems members).get? k, ShortInt v :=
      fun k v hv => hshort (k, v) (Dict.mem_of_get?_ofItems hv)
    unfold WALEntry.ofJson at h
    simp only at h
    split at h
    · cases h
    obtain ⟨sequence, hsequence, h⟩ := Pipeline.bind_ok h
    obtain ⟨txnId, -, h⟩ := Pipeline.bind_ok h
    obtain ⟨kind, -, h⟩ := Pipeline.bind_ok h
    obtain ⟨stepId, -, h⟩ := Pipeline.bind_ok h
    obtain ⟨tool, -, h⟩ := Pipeline.bind_ok h
    obtain ⟨argsHash, -, h⟩ := Pipeline.bind_ok h
    obtain ⟨resultHash, -, h⟩ := Pipeline.bind_ok h
    obtain ⟨inverseOp, -, h⟩ := Pipeline.bind_ok h
    obtain ⟨note, -, h⟩ := Pipeline.bind_ok h
    obtain ⟨timestampMs, htimestamp, h⟩ := Pipeline.bind_ok h
    obtain ⟨prevHash, -, h⟩ := Pipeline.bind_ok h
    unfold WALEntry.make at h
    split at h
    · cases h
      exact ⟨short_countField load hsequence (hfield _), short_countField load htimestamp (hfield _)⟩
    · cases h
  | _ => cases h

theorem writable_entryOf {line : Str} {e : WALEntry} (h : entryOf load line = .ok e) :
    Writable e := by
  obtain ⟨v, hv, he⟩ := Pipeline.bind_ok h
  exact writable_ofJson load he (shortMembers_loads hv)

def entriesOf (lines : List Str) : Except PyErr (List WALEntry) :=
  ((lines.map strip).filter fun line => line ≠ []).mapM (entryOf load)

structure FileWAL (load : Loader) where
  file : Option Bytes
  cache : List WALEntry
  loaded : Bool

variable {load}

namespace FileWAL

abbrev FileAction (load : Loader) (α : Type) := EStateM PyErr (FileWAL load) α

/-- `FileWAL(path)`. -/
def new (file : Option Bytes) : FileWAL load := ⟨file, [], false⟩

def ofExcept {α : Type} : Except PyErr α → FileAction load α
  | .ok a => pure a
  | .error e => throw e

def loadLines : List Str → FileAction load Unit
  | [] => pure ()
  | line :: rest =>
    if strip line = [] then loadLines rest
    else do
      let entry ← ofExcept (entryOf load (strip line))
      modify fun w => { w with cache := w.cache ++ [entry] }
      loadLines rest

def loadIfNeeded : FileAction load Unit := do
  let w ← get
  if w.loaded then pure ()
  else do
    modify fun w => { w with loaded := true }
    match w.file with
    | none => pure ()
    | some content => do
      let text ← ofExcept (utf8Decode content)
      loadLines (splitLines text)

/-- The line of an entry; `json.dumps` needs the decimal text of its integers. -/
def payloadLine (e : WALEntry) : Except PyErr Str := do
  let _ ← decimalText e.sequence
  let _ ← decimalText e.timestampMs
  return e.canonicalPayload ++ [cp '\n']

def append (e : WALEntry) : FileAction load Unit := do
  loadIfNeeded
  let w ← get
  if e.sequence ≠ w.cache.length then throw .valueError
  else if e.prevHash ≠ lastHashOf w.cache then throw .valueError
  else do
    let line ← ofExcept (payloadLine e)
    modify fun w => { w with file := some (w.file.getD [] ++ utf8 line), cache := w.cache ++ [e] }

def readAll : FileAction load (List WALEntry) := do
  loadIfNeeded
  let w ← get
  return w.cache

theorem entriesOf_blank {line : Str} (h : strip line = []) (rest : List Str) :
    entriesOf load (line :: rest) = entriesOf load rest := by
  unfold entriesOf
  rw [List.map_cons, List.filter_cons_of_neg (by simpa using h)]

theorem entriesOf_ok_cons {line : Str} (h : strip line ≠ []) {rest : List Str}
    {entries : List WALEntry} : entriesOf load (line :: rest) = .ok entries ↔
      ∃ entry more, entryOf load (strip line) = .ok entry ∧ entriesOf load rest = .ok more ∧
        entries = entry :: more := by
  unfold entriesOf
  rw [List.map_cons, List.filter_cons_of_pos (by simpa using h), mapM_ok_iff,
    List.forall₂_cons_left_iff]
  constructor
  · rintro ⟨entry, more, hentry, hmore, rfl⟩
    exact ⟨entry, more, hentry, (mapM_ok_iff _ _ _).mpr hmore, rfl⟩
  · rintro ⟨entry, more, hentry, hmore, rfl⟩
    exact ⟨entry, more, hentry, (mapM_ok_iff _ _ _).mp hmore, rfl⟩

theorem loadLines_ok_iff (lines : List Str) (w w' : FileWAL load) :
    loadLines lines w = .ok () w' ↔
      ∃ entries, entriesOf load lines = .ok entries ∧ w' = { w with cache := w.cache ++ entries } := by
  induction lines generalizing w with
  | nil =>
    constructor
    · intro h
      cases h
      exact ⟨[], rfl, by rw [List.append_nil]⟩
    · rintro ⟨entries, hentries, rfl⟩
      rw [← Except.ok.inj (show Except.ok [] = _ from hentries), List.append_nil]
      rfl
  | cons line rest ih =>
    rw [loadLines]
    by_cases hblank : strip line = []
    · rw [if_pos hblank, entriesOf_blank hblank]
      exact ih w
    · rw [if_neg hblank]
      simp only [entriesOf_ok_cons hblank]
      cases hentry : entryOf load (strip line) with
      | error e =>
        refine iff_of_false nofun ?_
        rintro ⟨entries, ⟨entry, more, hok, -⟩, -⟩
        cases hok
      | ok entry =>
        change loadLines rest { w with cache := w.cache ++ [entry] } = .ok () w' ↔ _
        rw [ih]
        constructor
        · rintro ⟨more, hmore, rfl⟩
          refine ⟨entry :: more, ⟨entry, more, rfl, hmore, rfl⟩, ?_⟩
          simp only [List.append_assoc, List.singleton_append]
        · rintro ⟨entries, ⟨entry', more, hok, hmore, rfl⟩, rfl⟩
          refine ⟨more, hmore, ?_⟩
          simp only [← Except.ok.inj hok, List.append_assoc, List.singleton_append]

def contentOf (load : Loader) (file : Option Bytes) : Except PyErr (List WALEntry) := do
  let text ← utf8Decode (file.getD [])
  entriesOf load (splitLines text)

theorem contentOf_eq {file : Option Bytes} {text : Str} (h : utf8Decode (file.getD []) = .ok text) :
    contentOf load file = entriesOf load (splitLines text) := by
  unfold contentOf
  rw [h]
  rfl

theorem loadIfNeeded_loaded {w : FileWAL load} (h : w.loaded = true) :
    loadIfNeeded w = .ok () w := by
  unfold loadIfNeeded
  rw [bind_ok (show (get : FileAction load _) w = .ok w w from rfl), if_pos h]
  rfl

theorem loadIfNeeded_new (file : Option Bytes) (w' : FileWAL load) :
    loadIfNeeded (new file) = .ok () w' ↔
      ∃ entries, contentOf load file = .ok entries ∧ w' = ⟨file, entries, true⟩ := by
  cases file with
  | none =>
    constructor
    · intro h
      cases h
      exact ⟨[], rfl, rfl⟩
    · rintro ⟨entries, hentries, rfl⟩
      rw [← Except.ok.inj (show Except.ok [] = _ from hentries)]
      rfl
  | some content =>
    unfold contentOf
    change (ofExcept (utf8Decode content) >>= fun text => loadLines (splitLines text))
      ⟨some content, [], true⟩ = .ok () w' ↔ _
    rw [Option.getD_some]
    cases utf8Decode content with
    | error e =>
      refine iff_of_false nofun ?_
      rintro ⟨entries, hentries, -⟩
      cases hentries
    | ok text => exact loadLines_ok_iff (splitLines text) ⟨some content, [], true⟩ w'

theorem readAll_new (file : Option Bytes) (entries : List WALEntry) :
    (∃ w, readAll (new file : FileWAL load) = .ok entries w) ↔ contentOf load file = .ok entries := by
  unfold readAll
  constructor
  · rintro ⟨w, h⟩
    obtain ⟨_, w', hload, hrest⟩ := of_bind_ok h
    obtain ⟨entries', hcontent, rfl⟩ := (loadIfNeeded_new file w').mp hload
    cases hrest
    exact hcontent
  · intro h
    exact ⟨_, bind_ok ((loadIfNeeded_new file _).mpr ⟨entries, h, rfl⟩) _⟩

theorem loadIfNeeded_ok {w w' : FileWAL load} (h : loadIfNeeded w = .ok () w') :
    w'.loaded = true ∧ w'.file = w.file := by
  cases hloaded : w.loaded with
  | true =>
    rw [loadIfNeeded_loaded hloaded] at h
    cases h
    exact ⟨hloaded, rfl⟩
  | false =>
    have hstart : loadIfNeeded w = (match w.file with
        | none => pure ()
        | some content => do
          let text ← ofExcept (utf8Decode content)
          loadLines (splitLines text)) { w with loaded := true } := by
      unfold loadIfNeeded
      rw [bind_ok (show (get : FileAction load _) w = .ok w w from rfl), hloaded, if_neg (by decide)]
      rfl
    rw [hstart] at h
    cases hfile : w.file with
    | none =>
      rw [hfile] at h
      cases h
      exact ⟨rfl, rfl⟩
    | some content =>
      rw [hfile] at h
      obtain ⟨text, w₁, htext, hlines⟩ := of_bind_ok h
      have hsame : w₁ = ⟨some content, w.cache, true⟩ := by
        cases hdecode : utf8Decode content with
        | error e =>
          rw [hdecode] at htext
          cases htext
        | ok text =>
          rw [hdecode] at htext
          cases htext
          rfl
      obtain ⟨entries, -, rfl⟩ := (loadLines_ok_iff _ _ _).mp hlines
      rw [hsame]
      exact ⟨rfl, rfl⟩

theorem payloadLine_ok_iff (e : WALEntry) (line : Str) :
    payloadLine e = .ok line ↔ Writable e ∧ line = e.canonicalPayload ++ [cp '\n'] := by
  unfold payloadLine
  constructor
  · intro h
    cases hsequence : decimalText e.sequence with
    | error err =>
      rw [hsequence] at h
      cases h
    | ok t =>
      cases htimestamp : decimalText e.timestampMs with
      | error err =>
        rw [hsequence, htimestamp] at h
        cases h
      | ok u =>
        rw [hsequence, htimestamp] at h
        exact ⟨⟨((decimalText_ok_iff _ _).mp hsequence).1, ((decimalText_ok_iff _ _).mp htimestamp).1⟩,
          (Except.ok.inj h).symm⟩
  · rintro ⟨hwritable, rfl⟩
    rw [(decimalText_ok_iff _ _).mpr ⟨hwritable.sequence, rfl⟩,
      (decimalText_ok_iff _ _).mpr ⟨hwritable.timestampMs, rfl⟩]
    rfl

def added (w : FileWAL load) (e : WALEntry) : FileWAL load :=
  { w with
    file := some (w.file.getD [] ++ utf8 (e.canonicalPayload ++ [cp '\n']))
    cache := w.cache ++ [e] }

theorem append_ok_iff (e : WALEntry) (w w' : FileWAL load) :
    append e w = .ok () w' ↔ ∃ w₁, loadIfNeeded w = .ok () w₁ ∧ e.sequence = w₁.cache.length ∧
      e.prevHash = lastHashOf w₁.cache ∧ Writable e ∧ w' = w₁.added e := by
  unfold append
  cases hload : loadIfNeeded w with
  | error err w₁ =>
    rw [bind_error hload]
    exact iff_of_false nofun nofun
  | ok u w₁ =>
    rw [bind_ok hload, bind_ok (show (get : FileAction load _) w₁ = .ok w₁ w₁ from rfl)]
    by_cases hsequence : e.sequence = w₁.cache.length
    · by_cases hprev : e.prevHash = lastHashOf w₁.cache
      · rw [if_neg (not_not.mpr hsequence), if_neg (not_not.mpr hprev)]
        cases hline : payloadLine e with
        | error err =>
          refine iff_of_false nofun ?_
          rintro ⟨w₂, -, -, -, hwritable, -⟩
          rw [(payloadLine_ok_iff e _).mpr ⟨hwritable, rfl⟩] at hline
          cases hline
        | ok line =>
          obtain ⟨hwritable, rfl⟩ := (payloadLine_ok_iff e line).mp hline
          constructor
          · intro h
            cases h
            exact ⟨w₁, rfl, hsequence, hprev, hwritable, rfl⟩
          · rintro ⟨w₂, hw₂, -, -, -, rfl⟩
            cases hw₂
            rfl
      · rw [if_neg (not_not.mpr hsequence), if_pos hprev]
        refine iff_of_false nofun ?_
        rintro ⟨w₂, hw₂, -, hprev', -⟩
        cases hw₂
        exact hprev hprev'
    · rw [if_pos hsequence]
      refine iff_of_false nofun ?_
      rintro ⟨w₂, hw₂, hsequence', -⟩
      cases hw₂
      exact hsequence hsequence'

/-- The entries that `read_all` returns. -/
def entries (w : FileWAL load) : List WALEntry := (after loadIfNeeded w).cache

theorem entries_of_load {w w' : FileWAL load} (h : loadIfNeeded w = .ok () w') :
    w.entries = w'.cache := by
  unfold entries
  rw [after_of_ok h]

theorem entries_loaded {w : FileWAL load} (h : w.loaded = true) : w.entries = w.cache :=
  entries_of_load (loadIfNeeded_loaded h)

instance : WAL (FileWAL load) where
  append w e :=
    match append e w with
    | .ok _ w' => .ok w'
    | .error err _ => .error err
  readAll := entries
  append_ok := by
    intro w w' e h
    cases happend : append e w with
    | error err w₁ =>
      rw [happend] at h
      cases h
    | ok u w₁ =>
      rw [happend] at h
      cases h
      obtain ⟨w₁, hload, hsequence, hprev, -, rfl⟩ := (append_ok_iff e w w').mp happend
      rw [entries_of_load hload, entries_loaded (show (w₁.added e).loaded = true from
        (loadIfNeeded_ok hload).1)]
      exact ⟨hsequence, hprev, rfl⟩

structure Durable (w : FileWAL load) (text : Str) : Prop where
  decoded : utf8Decode (w.file.getD []) = .ok text
  terminated : Terminated text
  loads : loadIfNeeded w = .ok () ⟨w.file, w.entries, true⟩
  stored : entriesOf load (splitLines text) = .ok w.entries

theorem durable_new : Durable (new none : FileWAL load) [] where
  decoded := rfl
  terminated := terminated_nil
  loads := rfl
  stored := rfl

theorem entriesOf_append {lines more : List Str} {entries added : List WALEntry}
    (h : entriesOf load lines = .ok entries) (hmore : entriesOf load more = .ok added) :
    entriesOf load (lines ++ more) = .ok (entries ++ added) := by
  unfold entriesOf at h hmore ⊢
  rw [mapM_ok_iff] at h hmore ⊢
  rw [List.map_append, List.filter_append]
  exact List.rel_append h hmore

theorem entriesOf_payload {e : WALEntry} (h : Writable e) :
    entriesOf load (splitLines (e.canonicalPayload ++ [cp '\n'])) = .ok [e] := by
  have hstrip : strip e.canonicalPayload = e.canonicalPayload := strip_writeObject e.members
  have hbreak : NoBreak e.canonicalPayload := by
    intro c hc
    have hprint : 0x20 ≤ c.val := printable_writeObject e.members c hc
    constructor
    · rintro rfl
      exact absurd hprint (by decide)
    · rintro rfl
      exact absurd hprint (by decide)
  have hne : strip e.canonicalPayload ≠ [] := by
    rw [hstrip]
    exact List.cons_ne_nil _ _
  rw [splitLines_line _ hbreak, entriesOf_ok_cons hne]
  exact ⟨e, [], by rw [hstrip]; exact entryOf_payload load h, rfl, rfl⟩

theorem Durable.append {w w' : FileWAL load} {text : Str} (h : Durable w text) {e : WALEntry}
    (happend : append e w = .ok () w') : Durable w' (text ++ (e.canonicalPayload ++ [cp '\n'])) := by
  obtain ⟨w₁, hload, -, -, hwritable, rfl⟩ := (append_ok_iff e w w').mp happend
  rw [h.loads] at hload
  cases hload
  have hplain : Plain (e.canonicalPayload ++ [cp '\n']) :=
    (plain_writeObject e.plain_members).append (plain_singleton (isSurrogate_cp _))
  exact
    { decoded := by
        rw [utf8Decode_eq_ok_iff]
        exact utf8Encode_append (utf8Decode_eq_ok_iff.mp h.decoded) (utf8Encode_eq hplain)
      terminated := by
        rw [← List.append_assoc]
        exact terminated_concat _
      loads := loadIfNeeded_loaded rfl
      stored := by
        rw [splitLines_append h.terminated]
        exact entriesOf_append h.stored (entriesOf_payload hwritable) }

theorem Durable.reopen {w : FileWAL load} {text : Str} (h : Durable w text) :
    Durable (new w.file : FileWAL load) text ∧ (new w.file : FileWAL load).entries = w.entries := by
  have hcontent : contentOf load w.file = .ok w.entries := (contentOf_eq h.decoded).trans h.stored
  have hload : loadIfNeeded (new w.file : FileWAL load) = .ok () ⟨w.file, w.entries, true⟩ :=
    (loadIfNeeded_new w.file _).mpr ⟨w.entries, hcontent, rfl⟩
  have hentries : (new w.file : FileWAL load).entries = w.entries := by
    rw [entries_of_load hload]
  refine ⟨⟨h.decoded, h.terminated, ?_, ?_⟩, hentries⟩
  · rw [hentries]
    exact hload
  · rw [hentries]
    exact h.stored

end FileWAL

end TexGovernance.Safeflow
