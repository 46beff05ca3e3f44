import TexGovernance.Engine.ContractBridge
import Mathlib.Data.List.DropRight

/-!
# What the bridge reads of the ledger (`stores/action_ledger.py`)

`InMemoryActionLedger` keeps one bounded queue for each agent. The bridge asks
it for four times the window and keeps the entries of the session.
-/

namespace TexGovernance.Engine
open PyStr PyDict Contracts

structure InMemoryActionLedger where
  perAgentLimit : ℕ
  byAgent : Dict Uuid (List ActionLedgerEntry)

namespace InMemoryActionLedger

def new (perAgentLimit : ℕ) : InMemoryActionLedger := ⟨perAgentLimit, Dict.empty⟩

def entriesOf (ledger : InMemoryActionLedger) (agentId : Uuid) : List ActionLedgerEntry :=
  (ledger.byAgent.get? agentId).getD []

def append (ledger : InMemoryActionLedger) (entry : ActionLedgerEntry) : InMemoryActionLedger :=
  { ledger with
    byAgent := ledger.byAgent.set entry.agentId
      ((ledger.entriesOf entry.agentId ++ [entry]).rtake ledger.perAgentLimit) }

def listForAgent (ledger : InMemoryActionLedger) (agentId : Uuid) (limit : Option ℤ) :
    List ActionLedgerEntry :=
  match limit with
  | none => ledger.entriesOf agentId
  | some limit => if limit ≤ 0 then [] else lastEntries limit (ledger.entriesOf agentId)

def asLedger (ledger : InMemoryActionLedger) : ActionLedger :=
  ⟨some fun agentId limit => .ok (ledger.listForAgent agentId (some limit))⟩

end InMemoryActionLedger

def InSession (sessionId : Option Str) (e : ActionLedgerEntry) : Prop :=
  sessionId.isSome = true → e.sessionId = sessionId

instance (sessionId : Option Str) : DecidablePred (InSession sessionId) := fun _ => by
  unfold InSession
  infer_instance

/-- The last `limit` entries of the session, without a session those of the
agent. -/
def sessionTail (entries : List ActionLedgerEntry) (sessionId : Option Str) (limit : ℤ) :
    List ProposedEvent :=
  ((entries.filter fun e => InSession sessionId e).rtake limit.toNat).map proposedEventFromLedgerEntry

theorem rtake_append_eq_iff {α β : Type} (f : α → β) (older recent : List α) (n : ℕ) :
    (recent.rtake n).map f = ((older ++ recent).rtake n).map f ↔ n ≤ recent.length ∨ older = [] := by
  constructor
  · intro h
    have hlength := congrArg List.length h
    simp only [List.rtake, List.length_map, List.length_drop, List.length_append] at hlength
    rw [← List.length_eq_zero_iff]
    omega
  · rintro (hle | rfl)
    · have hstart : (older ++ recent).length - n = older.length + (recent.length - n) := by
        rw [List.length_append]
        exact Nat.add_sub_assoc hle _
      unfold List.rtake
      rw [hstart, List.drop_length_add_append]
    · rfl

theorem lastEntries_eq_rtake {α : Type} {limit : ℤ} (h : 0 < limit) (xs : List α) :
    lastEntries limit xs = xs.rtake limit.toNat := by
  unfold lastEntries
  rw [if_neg (by omega)]
  rfl

theorem rtake_rtake {α : Type} (xs : List α) (m n : ℕ) : (xs.rtake m).rtake n = xs.rtake (min n m) := by
  simp only [List.rtake_eq_reverse_take_reverse, List.reverse_reverse, List.take_take]

theorem rtake_rtake_self {α : Type} (xs : List α) (n : ℕ) : (xs.rtake n).rtake n = xs.rtake n := by
  rw [rtake_rtake, min_self]

theorem filter_of_none (entries : List ActionLedgerEntry) :
    (entries.filter fun e => InSession none e) = entries :=
  List.filter_eq_self.mpr fun _ _ => decide_eq_true nofun

theorem window_eq (ledger : InMemoryActionLedger) (agentId : Uuid) (sessionId : Option Str) {limit : ℤ}
    (h : 0 < limit) :
    ledgerWindowFor ledger.asLedger agentId sessionId limit =
      ((((ledger.entriesOf agentId).rtake (if sessionId.isSome then 4 * limit else limit).toNat).filter
        fun e => InSession sessionId e).rtake limit.toNat).map proposedEventFromLedgerEntry := by
  have hlast : ∀ z : ℤ, 0 < z →
      ledger.listForAgent agentId (some z) = (ledger.entriesOf agentId).rtake z.toNat := fun z hz =>
    (if_neg (not_le.mpr hz)).trans (lastEntries_eq_rtake hz _)
  rw [← lastEntries_eq_rtake h, ← hlast _ (by split <;> omega)]
  cases sessionId with
  | none =>
    rw [filter_of_none]
    rfl
  | some session =>
    have hsession : ∀ e : ActionLedgerEntry,
        decide (InSession (some session) e) = decide (e.sessionId = some session) := fun e => by
      simp [InSession]
    simp only [hsession, Option.isSome_some, if_true, mul_comm 4 limit]
    rfl

/-- The window is the tail of the session exactly if the last `4 * limit`
entries of the agent hold `limit` of the session, or all that it has. -/
theorem ledger_window_iff (ledger : InMemoryActionLedger) (agentId : Uuid) (sessionId : Option Str)
    (limit : ℤ) :
    ledgerWindowFor ledger.asLedger agentId sessionId limit =
        sessionTail (ledger.entriesOf agentId) sessionId limit ↔
      limit ≤ 0 ∨ sessionId = none ∨
      limit ≤ (((ledger.entriesOf agentId).rtake (4 * limit).toNat).countP fun e =>
        InSession sessionId e : ℕ) ∨
      ∀ e ∈ (ledger.entriesOf agentId).rdrop (4 * limit).toNat, ¬ InSession sessionId e := by
  by_cases hlimit : limit ≤ 0
  · have hnone : ∀ z : ℤ, z ≤ 0 → ledger.listForAgent agentId (some z) = [] := fun z hz => if_pos hz
    refine iff_of_true ?_ (.inl hlimit)
    unfold ledgerWindowFor sessionTail InMemoryActionLedger.asLedger
    dsimp only
    rw [hnone _ (by split <;> omega), Int.toNat_eq_zero.mpr hlimit, List.rtake_zero]
    unfold lastEntries
    simp
  rw [or_iff_right hlimit, window_eq ledger agentId sessionId (not_le.mp hlimit)]
  unfold sessionTail
  cases sessionId with
  | none =>
    refine iff_of_true ?_ (.inl rfl)
    rw [filter_of_none, filter_of_none]
    exact congrArg _ (rtake_rtake_self _ _)
  | some session =>
    rw [or_iff_right (by simp), Option.isSome_some, if_pos rfl]
    have hsplit : ledger.entriesOf agentId = (ledger.entriesOf agentId).rdrop (4 * limit).toNat ++
        (ledger.entriesOf agentId).rtake (4 * limit).toNat := (List.take_append_drop _ _).symm
    have hfilter := congrArg (List.filter fun e => InSession (some session) e) hsplit
    rw [List.filter_append] at hfilter
    rw [hfilter, rtake_append_eq_iff, List.filter_eq_nil_iff, List.countP_eq_length_filter]
    simp only [decide_eq_true_eq, Int.toNat_le]

def sampleEntry (sessionId : Str) : ActionLedgerEntry where
  agentId := ⟨txt "00000000-0000-0000-0000-00000000000a", by decide⟩
  sessionId := some sessionId
  verdict := txt "PERMIT"
  actionType := txt "send_email"
  channel := txt "email"
  environment := txt "production"
  recipient := none
  finalScore := 0
  confidence := 1
  contentSha256 := List.replicate 64 (cp '0')
  policyVersion := none
  evidenceHash := none
  capabilityViolations := []
  asiShortCodes := []
  mcpServerIds := []
  tools := []
  recordedAt := txt "2025-01-01T00:00:00+00:00"

def interleavedLedger : InMemoryActionLedger :=
  (sampleEntry (txt "s") :: List.replicate 4 (sampleEntry (txt "t"))).foldl InMemoryActionLedger.append
    (.new 5000)

theorem ledger_window_misses_session :
    ledgerWindowFor interleavedLedger.asLedger (sampleEntry (txt "s")).agentId (some (txt "s")) 1 = [] ∧
    sessionTail (interleavedLedger.entriesOf (sampleEntry (txt "s")).agentId) (some (txt "s")) 1 =
      [proposedEventFromLedgerEntry (sampleEntry (txt "s"))] := by
  have hentries : interleavedLedger.entriesOf (sampleEntry (txt "s")).agentId =
      sampleEntry (txt "s") :: List.replicate 4 (sampleEntry (txt "t")) := rfl
  constructor
  · rw [window_eq _ _ _ (by norm_num), hentries]
    rfl
  · rw [hentries]
    rfl

theorem window_of_nonpos (ledger : InMemoryActionLedger) (agentId : Uuid) (sessionId : Option Str) {limit : ℤ}
    (h : limit ≤ 0) : ledgerWindowFor ledger.asLedger agentId sessionId limit = [] := by
  have hnone : ∀ z : ℤ, z ≤ 0 → ledger.listForAgent agentId (some z) = [] := fun z hz => if_pos hz
  unfold ledgerWindowFor InMemoryActionLedger.asLedger
  dsimp only
  rw [hnone _ (by split <;> omega)]
  unfold lastEntries
  simp

namespace InMemoryActionLedger

theorem rtake_concat_rtake {α : Type} (xs : List α) (x : α) (n : ℕ) :
    (xs.rtake n ++ [x]).rtake n = (xs ++ [x]).rtake n := by
  cases n with
  | zero => simp only [List.rtake_zero]
  | succ n =>
    rw [List.rtake_concat_succ, List.rtake_concat_succ, rtake_rtake, min_eq_left n.le_succ]

theorem perAgentLimit_run (capacity : ℕ) (appended : List ActionLedgerEntry) :
    (appended.foldl append (new capacity)).perAgentLimit = capacity := by
  induction appended using List.reverseRecOn with
  | nil => rfl
  | append_singleton appended entry ih =>
    rw [List.foldl_concat]
    exact ih

/-- The queue of an agent holds the newest of its entries, whatever the others append in between. -/
theorem entriesOf_run (capacity : ℕ) (appended : List ActionLedgerEntry) (agentId : Uuid) :
    (appended.foldl append (new capacity)).entriesOf agentId =
      (appended.filter fun e => e.agentId = agentId).rtake capacity := by
  induction appended using List.reverseRecOn with
  | nil => exact (List.rtake_nil capacity).symm
  | append_singleton appended entry ih =>
    have hlimit := perAgentLimit_run capacity appended
    rw [List.foldl_concat, List.filter_append]
    generalize appended.foldl append (new capacity) = ledger at ih hlimit ⊢
    have happend : (ledger.append entry).entriesOf agentId = if agentId = entry.agentId then
        (ledger.entriesOf entry.agentId ++ [entry]).rtake ledger.perAgentLimit else ledger.entriesOf agentId := by
      unfold append entriesOf
      rw [Dict.get?_set]
      split <;> rfl
    rw [happend]
    by_cases hown : agentId = entry.agentId
    · subst hown
      rw [if_pos rfl, ih, hlimit, rtake_concat_rtake]
      simp
    · rw [if_neg hown, ih]
      simp [Ne.symm hown]

end InMemoryActionLedger

/-- After any appends of any agents, the window is the tail of all that the session has ever appended
exactly if the entries scanned and kept hold enough of the session, or all of it. -/
theorem window_of_appends_iff (capacity : ℕ) (appended : List ActionLedgerEntry) (agentId : Uuid)
    (sessionId : Option Str) (limit : ℤ) :
    ledgerWindowFor (appended.foldl InMemoryActionLedger.append (.new capacity)).asLedger agentId sessionId limit =
        sessionTail (appended.filter fun e => e.agentId = agentId) sessionId limit ↔
      limit ≤ 0 ∨
      limit ≤ (((appended.filter fun e => e.agentId = agentId).rtake
        (min (if sessionId.isSome then 4 * limit else limit).toNat capacity)).countP fun e =>
          InSession sessionId e : ℕ) ∨
      ∀ e ∈ (appended.filter fun e => e.agentId = agentId).rdrop
        (min (if sessionId.isSome then 4 * limit else limit).toNat capacity), ¬ InSession sessionId e := by
  by_cases hlimit : limit ≤ 0
  · refine iff_of_true ?_ (.inl hlimit)
    rw [window_of_nonpos _ _ _ hlimit, sessionTail, Int.toNat_eq_zero.mpr hlimit, List.rtake_zero]
    rfl
  rw [or_iff_right hlimit, window_eq _ agentId sessionId (not_le.mp hlimit), InMemoryActionLedger.entriesOf_run,
    rtake_rtake]
  generalize appended.filter (fun e => e.agentId = agentId) = own
  generalize min (if sessionId.isSome then 4 * limit else limit).toNat capacity = scanned
  have hsplit : own = own.rdrop scanned ++ own.rtake scanned := (List.take_append_drop _ _).symm
  have hfilter := congrArg (List.filter fun e => InSession sessionId e) hsplit
  rw [List.filter_append] at hfilter
  unfold sessionTail
  rw [hfilter, rtake_append_eq_iff, List.filter_eq_nil_iff, List.countP_eq_length_filter]
  simp only [decide_eq_true_eq, Int.toNat_le]

end TexGovernance.Engine
