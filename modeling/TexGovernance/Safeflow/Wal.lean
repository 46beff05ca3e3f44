import TexGovernance.Lib.JsonDoc
import TexGovernance.Lib.Sha2
import TexGovernance.Lib.PyDict

/-!
# The write-ahead log

`safeflow/wal.py`: the entry with the checks of its fields, its canonical
payload and hash, the log protocol, and the log in memory.
-/

namespace TexGovernance.Safeflow
open PyStr PyBytes PyCodec PyJson PyRepr PyDict Sha256 JsonDoc

/-- `Field(min_length=1, max_length=n)`. -/
def RequiredText (n : ℕ) (s : Str) : Prop := s ≠ [] ∧ fitsField n s

instance (n : ℕ) (s : Str) : Decidable (RequiredText n s) := inferInstanceAs (Decidable (_ ∧ _))

/-- `str | None = Field(default=None, max_length=n)`. -/
def OptionalFits (n : ℕ) (o : Option Str) : Prop := ∀ t ∈ o, fitsField n t

instance (n : ℕ) (o : Option Str) : Decidable (OptionalFits n o) :=
  inferInstanceAs (Decidable (∀ t ∈ o, _))

@[simp] theorem optionalFits_none (n : ℕ) : OptionalFits n none := fun _ h => absurd h (by simp)

@[simp] theorem optionalFits_some (n : ℕ) (s : Str) : OptionalFits n (some s) ↔ fitsField n s := by
  simp [OptionalFits]

inductive WALEntryKind where
  | begin_
  | stepBefore
  | stepAfter
  | commit
  | abort
  | rollbackBefore
  | rollbackAfter
  deriving DecidableEq

namespace WALEntryKind

def value : WALEntryKind → Str
  | begin_ => txt "BEGIN"
  | stepBefore => txt "STEP_BEFORE"
  | stepAfter => txt "STEP_AFTER"
  | commit => txt "COMMIT"
  | abort => txt "ABORT"
  | rollbackBefore => txt "ROLLBACK_BEFORE"
  | rollbackAfter => txt "ROLLBACK_AFTER"

def all : List WALEntryKind :=
  [begin_, stepBefore, stepAfter, commit, abort, rollbackBefore, rollbackAfter]

end WALEntryKind

/-- What `WALEntry(..)` is given. -/
structure WALFields where
  sequence : ℕ
  txnId : Str
  kind : WALEntryKind
  stepId : Option Str := none
  tool : Option Str := none
  argsHash : Option Str := none
  resultHash : Option Str := none
  inverseOp : Option Str := none
  note : Option Str := none
  timestampMs : ℕ
  prevHash : Str
  deriving DecidableEq

structure TextsFit (stepId tool argsHash resultHash inverseOp note : Option Str) : Prop where
  stepId : OptionalFits 64 stepId
  tool : OptionalFits 128 tool
  argsHash : OptionalFits 128 argsHash
  resultHash : OptionalFits 128 resultHash
  inverseOp : OptionalFits 128 inverseOp
  note : OptionalFits 500 note

instance (stepId tool argsHash resultHash inverseOp note : Option Str) :
    Decidable (TextsFit stepId tool argsHash resultHash inverseOp note) :=
  decidable_of_iff (OptionalFits 64 stepId ∧ OptionalFits 128 tool ∧ OptionalFits 128 argsHash ∧
      OptionalFits 128 resultHash ∧ OptionalFits 128 inverseOp ∧ OptionalFits 500 note)
    ⟨fun ⟨h1, h2, h3, h4, h5, h6⟩ => ⟨h1, h2, h3, h4, h5, h6⟩,
      fun ⟨h1, h2, h3, h4, h5, h6⟩ => ⟨h1, h2, h3, h4, h5, h6⟩⟩

def WALFields.Valid (f : WALFields) : Prop :=
  RequiredText 128 f.txnId ∧ RequiredText 128 f.prevHash ∧
    TextsFit f.stepId f.tool f.argsHash f.resultHash f.inverseOp f.note

instance (f : WALFields) : Decidable f.Valid := inferInstanceAs (Decidable (_ ∧ _))

structure WALEntry extends WALFields where
  valid : toWALFields.Valid
  deriving DecidableEq

namespace WALEntry

def make (f : WALFields) : Except PyErr WALEntry :=
  if h : f.Valid then .ok ⟨f, h⟩ else .error .valueError

def optionalScalar : Option Str → Scalar
  | some s => .str s
  | none => .null

def members (e : WALEntry) : List (Str × Scalar) :=
  [(txt "args_hash", optionalScalar e.argsHash), (txt "inverse_op", optionalScalar e.inverseOp),
    (txt "kind", .str e.kind.value), (txt "note", optionalScalar e.note),
    (txt "prev_hash", .str e.prevHash), (txt "result_hash", optionalScalar e.resultHash),
    (txt "sequence", .count e.sequence), (txt "step_id", optionalScalar e.stepId),
    (txt "timestamp_ms", .count e.timestampMs), (txt "tool", optionalScalar e.tool),
    (txt "txn_id", .str e.txnId)]

def canonicalPayload (e : WALEntry) : Str := writeObject e.members

/-- An entry holds no lone surrogate, so `encode` succeeds on its payload. -/
def hash (e : WALEntry) : Str := hex (sha256 (utf8 e.canonicalPayload)).bytes

theorem plain_optionalScalar {n : ℕ} {o : Option Str} (h : OptionalFits n o) :
    (optionalScalar o).Plain := by
  cases o with
  | none => trivial
  | some s => exact ((optionalFits_some n s).mp h).2

theorem plain_members (e : WALEntry) : ∀ m ∈ e.members, Plain m.1 ∧ m.2.Plain := by
  obtain ⟨htxn, hprev, hfits⟩ := e.valid
  have hkind : Plain e.kind.value := by
    cases e.kind <;> exact plain_txt _
  unfold members
  simp only [List.forall_mem_cons, List.not_mem_nil, false_imp_iff, implies_true, and_true]
  exact ⟨⟨plain_txt _, plain_optionalScalar hfits.argsHash⟩,
    ⟨plain_txt _, plain_optionalScalar hfits.inverseOp⟩, ⟨plain_txt _, hkind⟩,
    ⟨plain_txt _, plain_optionalScalar hfits.note⟩, ⟨plain_txt _, hprev.2.2⟩,
    ⟨plain_txt _, plain_optionalScalar hfits.resultHash⟩, ⟨plain_txt _, trivial⟩,
    ⟨plain_txt _, plain_optionalScalar hfits.stepId⟩, ⟨plain_txt _, trivial⟩,
    ⟨plain_txt _, plain_optionalScalar hfits.tool⟩, plain_txt _, htxn.2.2⟩

end WALEntry

theorem requiredText_hexDigest (bytes : Bytes) : RequiredText 128 (hex (sha256 bytes).bytes) := by
  have hlen : (hex (sha256 bytes).bytes).length = 64 := by
    rw [hex_length, (sha256 bytes).length_eq]
  refine ⟨?_, ?_, fun c hc => isSurrogate_of_lt ?_⟩
  · intro hnil
    rw [hnil] at hlen
    cases hlen
  · omega
  · have hascii := hex_ascii (sha256 bytes).bytes c hc
    omega

def genesisHash : Str := List.replicate 64 (cp '0')

/-- `last_hash()` of a log that holds `entries`. -/
def lastHashOf (entries : List WALEntry) : Str :=
  match entries.getLast? with
  | some e => e.hash
  | none => genesisHash

theorem requiredText_lastHashOf (entries : List WALEntry) : RequiredText 128 (lastHashOf entries) := by
  unfold lastHashOf
  split
  · exact requiredText_hexDigest _
  · decide

/-- `WAL` with what each log promises: an accepted entry is the next one of the
chain, and it is read back behind the others. -/
class WAL (σ : Type) where
  append : σ → WALEntry → Except PyErr σ
  readAll : σ → List WALEntry
  append_ok : ∀ {w w' : σ} {e : WALEntry}, append w e = .ok w' →
    e.sequence = (readAll w).length ∧ e.prevHash = lastHashOf (readAll w) ∧
      readAll w' = readAll w ++ [e]

namespace WAL

variable {σ : Type} [WAL σ]

def lastHash (w : σ) : Str := lastHashOf (readAll w)

def nextSequence (w : σ) : ℕ := (readAll w).length

class Reliable (σ : Type) [WAL σ] : Prop where
  accepts : ∀ (w : σ) (e : WALEntry), e.sequence = nextSequence w → e.prevHash = lastHash w →
    ∃ w', append w e = .ok w'

end WAL

structure InMemoryWAL where
  entries : List WALEntry

namespace InMemoryWAL

def append (w : InMemoryWAL) (e : WALEntry) : Except PyErr InMemoryWAL :=
  if e.sequence ≠ w.entries.length then .error .valueError
  else if e.prevHash ≠ lastHashOf w.entries then .error .valueError
  else .ok ⟨w.entries ++ [e]⟩

instance : WAL InMemoryWAL where
  append := append
  readAll := entries
  append_ok := by
    intro w w' e h
    unfold append at h
    split at h
    · cases h
    · next hsequence =>
      split at h
      · cases h
      · next hprev =>
        cases h
        exact ⟨not_not.mp hsequence, not_not.mp hprev, rfl⟩

instance : WAL.Reliable InMemoryWAL where
  accepts w e hsequence hprev := by
    have hnext : ¬e.sequence ≠ w.entries.length := not_not.mpr hsequence
    have hlink : ¬e.prevHash ≠ lastHashOf w.entries := not_not.mpr hprev
    change ∃ w', append w e = .ok w'
    unfold append
    rw [if_neg hnext, if_neg hlink]
    exact ⟨_, rfl⟩

end InMemoryWAL

/-- The terminal state of each transaction, as `replay` reads it from a log. -/
def replay (entries : List WALEntry) : Dict Str Str :=
  entries.foldl (fun state e =>
    match e.kind with
    | .begin_ => state.set e.txnId (txt "PENDING")
    | .commit => state.set e.txnId (txt "COMMITTED")
    | .abort => state.set e.txnId (txt "ABORTED")
    | .rollbackBefore => state.set e.txnId (txt "ROLLING_BACK")
    | .rollbackAfter => state.set e.txnId (txt "ROLLING_BACK")
    | _ => state) Dict.empty

end TexGovernance.Safeflow
