import TexGovernance.Safeflow.Compensation
import TexGovernance.Safeflow.FileWal

/-!
# The log is a chain

What executors write through one log is a chain, and a log in a file is read
back as it was written.
-/

namespace TexGovernance.Safeflow
open PyStr PyBytes PyCodec PyRepr PyDict TextFile Actions

variable {σ World Val : Type}

structure Chained (entries : List WALEntry) : Prop where
  sequence : ∀ i (h : i < entries.length), entries[i].sequence = i
  first : ∀ h : 0 < entries.length, entries[0].prevHash = genesisHash
  link : ∀ i (h : i + 1 < entries.length), entries[i + 1].prevHash = entries[i].hash

theorem chained_nil : Chained [] := ⟨nofun, nofun, nofun⟩

theorem lastHashOf_eq {entries : List WALEntry} {i : ℕ} (h : i + 1 = entries.length) :
    lastHashOf entries = (entries[i]).hash := by
  have hlast : entries.getLast? = some entries[i] := by
    rw [List.getLast?_eq_getElem?, List.getElem?_eq_some_iff]
    exact ⟨by omega, by simp only [← h, Nat.add_sub_cancel]⟩
  unfold lastHashOf
  rw [hlast]

theorem chained_concat (entries : List WALEntry) (e : WALEntry) :
    Chained (entries ++ [e]) ↔
      Chained entries ∧ e.sequence = entries.length ∧ e.prevHash = lastHashOf entries := by
  have hlength : (entries ++ [e]).length = entries.length + 1 := List.length_append
  have hend : entries.length < (entries ++ [e]).length := by omega
  have hlast : (entries ++ [e])[entries.length] = e := by
    rw [List.getElem_append_right le_rfl]
    simp
  have hold : ∀ i (h : i < entries.length) (h' : i < (entries ++ [e]).length),
      (entries ++ [e])[i] = entries[i] :=
    fun i h _ => List.getElem_append_left h
  constructor
  · intro h
    refine ⟨⟨fun i hi => ?_, fun hi => ?_, fun i hi => ?_⟩, ?_, ?_⟩
    · rw [← hold i hi (by omega)]
      exact h.sequence i (by omega)
    · rw [← hold 0 hi (by omega)]
      exact h.first (by omega)
    · rw [← hold (i + 1) hi (by omega), ← hold i (by omega) (by omega)]
      exact h.link i (by omega)
    · have hsequence := h.sequence entries.length (by omega)
      rwa [hlast] at hsequence
    · cases hcount : entries.length with
      | zero =>
        obtain rfl := List.eq_nil_of_length_eq_zero hcount
        exact h.first (by omega)
      | succ i =>
        have hlink := h.link i (by omega)
        rw [hold i (by omega) (by omega)] at hlink
        simp only [← hcount, hlast] at hlink
        rw [hlink, lastHashOf_eq hcount.symm]
  · rintro ⟨h, hsequence, hprev⟩
    refine ⟨fun i hi => ?_, fun hi => ?_, fun i hi => ?_⟩
    · by_cases hnew : i = entries.length
      · subst hnew
        rw [hlast]
        exact hsequence
      · rw [hold i (by omega) (by omega)]
        exact h.sequence i (by omega)
    · cases entries with
      | nil => exact hprev
      | cons first rest => exact h.first (by simp)
    · rw [hold i (by omega) (by omega)]
      by_cases hnew : i + 1 = entries.length
      · simp only [hnew, hlast]
        rw [hprev, lastHashOf_eq hnew]
      · rw [hold (i + 1) (by omega) (by omega)]
        exact h.link i (by omega)

namespace WAL

variable [WAL σ]

def Accepts (w w' : σ) : Prop := ∃ e, append w e = .ok w'

def Grows : σ → σ → Prop := Relation.ReflTransGen Accepts

theorem chained_of_grows {w w' : σ} (h : Grows w w') (hchain : Chained (readAll w)) :
    Chained (readAll w') := by
  induction h with
  | refl => exact hchain
  | tail _ haccepts ih =>
    obtain ⟨e, happend⟩ := haccepts
    obtain ⟨hsequence, hprev, hread⟩ := append_ok happend
    rw [hread, chained_concat]
    exact ⟨ih, hsequence, hprev⟩

end WAL

section Growth

variable [WAL σ] (p : Platform Val)

def Extends (s s' : TransactionalExecutor σ World Val) : Prop := WAL.Grows s.wal s'.wal

theorem Extends.refl (s : TransactionalExecutor σ World Val) : Extends s s := Relation.ReflTransGen.refl

theorem Extends.trans (s t u : TransactionalExecutor σ World Val) (h : Extends s t)
    (h' : Extends t u) : Extends s u := Relation.ReflTransGen.trans h h'

theorem extends_of_wal {s s' : TransactionalExecutor σ World Val} (h : s'.wal = s.wal) :
    Extends s s' := by
  unfold Extends
  rw [h]
  exact Relation.ReflTransGen.refl

variable {α β : Type}

theorem keeps_seq {x : Exec σ World Val α} {f : α → Exec σ World Val β} (hx : Keeps Extends x)
    (hf : ∀ a, Keeps Extends (f a)) : Keeps Extends (x >>= f) := Keeps.seq Extends.trans hx hf

theorem keeps_read {f : TransactionalExecutor σ World Val → Exec σ World Val α}
    (h : ∀ s, Keeps Extends (f s)) : Keeps Extends (get >>= f) := Keeps.read fun s => h s s

theorem keeps_ret (a : α) : Keeps Extends (pure a : Exec σ World Val α) := Keeps.ret Extends.refl a

theorem keeps_raise (e : ExecError) : Keeps Extends (throw e : Exec σ World Val α) :=
  Keeps.raise Extends.refl e

theorem keeps_update {f : TransactionalExecutor σ World Val → TransactionalExecutor σ World Val}
    (h : ∀ s, (f s).wal = s.wal) : Keeps Extends (modify f : Exec σ World Val PUnit) :=
  Keeps.update fun s => extends_of_wal (h s)

theorem keeps_raises (x : Except PyErr α) : Keeps Extends (raises x : Exec σ World Val α) := by
  cases x with
  | ok a => exact keeps_ret a
  | error e => exact keeps_raise _

theorem keeps_now : Keeps Extends (now p : Exec σ World Val ℕ) := fun _ => extends_of_wal rfl

theorem keeps_invokeTool (impl : ToolFn World Val) (args : Dict Str Val) :
    Keeps Extends (invokeTool impl args : Exec σ World Val _) := fun _ => extends_of_wal rfl

theorem keeps_invokeInverse (stepId op : Str) (inverse : InverseFn World Val) (tool : Str)
    (args : Dict Str Val) (result : Option Val) :
    Keeps Extends (invokeInverse stepId op inverse tool args result : Exec σ World Val _) :=
  fun _ => extends_of_wal rfl

theorem keeps_appendWal (kind : WALEntryKind)
    (stepId tool argsHash resultHash inverseOp note : Option Str) :
    Keeps Extends (appendWal p kind stepId tool argsHash resultHash inverseOp note :
      Exec σ World Val Unit) := by
  intro s
  change Extends s (after (raises (WALEntry.make
      { sequence := WAL.nextSequence s.wal, txnId := s.txn.txnId.text, kind, stepId, tool, argsHash,
        resultHash, inverseOp, note, timestampMs := p.nowMs s.clockReads,
        prevHash := WAL.lastHash s.wal }) >>= fun entry => raises (WAL.append s.wal entry) >>= fun wal =>
    modify fun s => { s with wal := wal }) { s with clockReads := s.clockReads + 1 })
  cases WALEntry.make _ with
  | error e => exact extends_of_wal rfl
  | ok entry =>
    change Extends s (after (raises (WAL.append s.wal entry) >>= fun wal =>
      modify fun s => { s with wal := wal }) { s with clockReads := s.clockReads + 1 })
    cases happend : WAL.append s.wal entry with
    | error e => exact extends_of_wal rfl
    | ok wal => exact Relation.ReflTransGen.single ⟨entry, happend⟩

theorem keeps_outcome : Keeps Extends (outcome : Exec σ World Val TransactionOutcome) := by
  refine keeps_read fun s => keeps_seq (keeps_raises _) fun digest => ?_
  split
  · exact keeps_ret _
  · exact keeps_raise _

theorem keeps_noteUndone (step : TransactionStep) (op : Str) (returned : Except Str Unit) :
    Keeps Extends (noteUndone p step op returned : Exec σ World Val Unit) := by
  cases returned with
  | ok _ => exact keeps_appendWal p _ _ _ _ _ _ _
  | error exc => exact keeps_seq (keeps_update fun _ => rfl) fun _ => keeps_appendWal p _ _ _ _ _ _ _

theorem keeps_undoStep (step : TransactionStep) (op : Str) :
    Keeps Extends (undoStep p step op : Exec σ World Val Unit) := by
  refine keeps_read fun s => ?_
  cases s.inverses.get? op with
  | none => exact keeps_update fun _ => rfl
  | some inverse =>
    exact keeps_seq (keeps_appendWal p _ _ _ _ _ _ _) fun _ =>
      keeps_seq (keeps_invokeInverse _ _ _ _ _ _) fun returned => keeps_noteUndone p step op returned

theorem keeps_rollbackSteps (steps : List TransactionStep) :
    Keeps Extends (rollbackSteps p steps : Exec σ World Val Unit) := by
  induction steps with
  | nil => exact keeps_ret ()
  | cons step rest ih =>
    refine keeps_seq ?_ fun _ => ih
    unfold rollbackStep
    split
    · exact keeps_ret ()
    · split
      · exact keeps_ret ()
      · exact keeps_undoStep p step _

theorem keeps_rollback : Keeps Extends (rollback p : Exec σ World Val Unit) :=
  keeps_read fun s => keeps_rollbackSteps p s.txn.steps.reverse

theorem keeps_begin : Keeps Extends (begin_ p : Exec σ World Val Unit) :=
  keeps_appendWal p _ _ _ _ _ _ _

theorem keeps_commit : Keeps Extends (commit p : Exec σ World Val TransactionOutcome) := by
  refine keeps_read fun s => ?_
  split
  · exact keeps_raise _
  · exact keeps_seq (keeps_now p) fun _ => keeps_seq (keeps_update fun _ => rfl) fun _ =>
      keeps_seq (keeps_appendWal p _ _ _ _ _ _ _) fun _ => keeps_outcome

theorem keeps_abortPending (reason : Str) :
    Keeps Extends (abortPending p reason : Exec σ World Val TransactionOutcome) := by
  refine keeps_seq (keeps_now p) fun _ => keeps_seq (keeps_update fun _ => rfl) fun _ =>
    keeps_seq (keeps_appendWal p _ _ _ _ _ _ _) fun _ => keeps_seq (keeps_rollback p) fun _ =>
      keeps_seq (keeps_update fun s => ?_) fun _ => keeps_outcome
  split
  · rfl
  · rfl

theorem keeps_abort (reason : Str) :
    Keeps Extends (abort p reason : Exec σ World Val TransactionOutcome) := by
  refine keeps_read fun s => ?_
  cases s.txn.state with
  | pending => exact keeps_abortPending p reason
  | committed => exact keeps_raise _
  | rolledBack => exact keeps_outcome
  | failed => exact keeps_outcome

theorem keeps_admission (call : StepCall Val) :
    Keeps Extends (admission p call : Exec σ World Val (ToolFn World Val)) := by
  refine keeps_read fun s => ?_
  split
  · exact keeps_raise _
  · split
    · exact keeps_raise _
    · split
      · exact keeps_raise _
      · exact keeps_ret _

theorem keeps_stepRaised (call : StepCall Val) (argsHash : Str) (startedAtMs : ℕ) (exc : Str) :
    Keeps Extends (stepRaised p call argsHash startedAtMs exc : Exec σ World Val Val) :=
  keeps_seq (keeps_now p) fun _ => keeps_seq (keeps_raises _) fun _ =>
    keeps_seq (keeps_update fun _ => rfl) fun _ => keeps_seq (keeps_appendWal p _ _ _ _ _ _ _) fun _ =>
      keeps_seq (keeps_abort p _) fun _ => keeps_raise _

theorem keeps_stepReturned (call : StepCall Val) (argsHash : Str) (startedAtMs : ℕ) (result : Val) :
    Keeps Extends (stepReturned p call argsHash startedAtMs result : Exec σ World Val Val) :=
  keeps_seq (keeps_raises _) fun _ => keeps_seq (keeps_now p) fun _ => keeps_seq (keeps_raises _) fun _ =>
    keeps_seq (keeps_update fun _ => rfl) fun _ => keeps_seq (keeps_appendWal p _ _ _ _ _ _ _) fun _ =>
      keeps_ret _

theorem keeps_step (call : StepCall Val) : Keeps Extends (step p call : Exec σ World Val Val) := by
  refine keeps_seq (keeps_admission p call) fun impl => keeps_seq (keeps_raises _) fun argsHash =>
    keeps_seq (keeps_now p) fun startedAtMs => keeps_seq (keeps_appendWal p _ _ _ _ _ _ _) fun _ =>
      keeps_seq (keeps_invokeTool _ _) fun returned => ?_
  cases returned with
  | error exc => exact keeps_stepRaised p call argsHash startedAtMs exc
  | ok result => exact keeps_stepReturned p call argsHash startedAtMs result

theorem extends_apply (e : Event Val) (s : TransactionalExecutor σ World Val) :
    Extends s (e.apply p s) := by
  cases e with
  | begin_ => exact keeps_begin p s
  | step call => exact keeps_step p call s
  | commit => exact keeps_commit p s
  | abort reason => exact keeps_abort p reason s

end Growth

structure Sessions (ι σ World Val : Type) where
  wal : σ
  world : World
  executors : ι → TransactionalExecutor σ World Val

variable {ι : Type} [DecidableEq ι]

def Sessions.call [WAL σ] (p : Platform Val) (s : Sessions ι σ World Val) (i : ι) (e : Event Val) :
    Sessions ι σ World Val :=
  let after := e.apply p { s.executors i with wal := s.wal, world := s.world }
  ⟨after.wal, after.world, Function.update s.executors i after⟩

def Sessions.run [WAL σ] (p : Platform Val) (s : Sessions ι σ World Val) :
    List (ι × Event Val) → Sessions ι σ World Val
  | [] => s
  | (i, e) :: rest => (s.call p i e).run p rest

theorem Sessions.grows [WAL σ] (p : Platform Val) (calls : List (ι × Event Val)) :
    ∀ s : Sessions ι σ World Val, WAL.Grows s.wal (s.run p calls).wal := by
  induction calls with
  | nil => exact fun s => Relation.ReflTransGen.refl
  | cons call rest ih =>
    intro s
    exact Relation.ReflTransGen.trans
      (extends_apply p call.2 { s.executors call.1 with wal := s.wal, world := s.world })
      (ih (s.call p call.1 call.2))

namespace FileWAL

variable {load : Loader}

theorem append_of_accepted {w w' : FileWAL load} {e : WALEntry} (h : WAL.append w e = .ok w') :
    append e w = .ok () w' := by
  cases happend : append e w with
  | error err w₁ =>
    simp only [WAL.append, happend] at h
    cases h
  | ok u w₁ =>
    simp only [WAL.append, happend] at h
    cases h
    rfl

theorem accepted_of_append {w w' : FileWAL load} {e : WALEntry} (h : append e w = .ok () w') :
    WAL.append w e = .ok w' := by
  simp only [WAL.append, h]

theorem durable_of_grows {w w' : FileWAL load} (h : WAL.Grows w w') {text : Str}
    (hdurable : Durable w text) : ∃ text', Durable w' text' := by
  induction h with
  | refl => exact ⟨text, hdurable⟩
  | tail _ haccepts ih =>
    obtain ⟨text', htext'⟩ := ih
    obtain ⟨e, happend⟩ := haccepts
    exact ⟨_, htext'.append (append_of_accepted happend)⟩

inductive InUse (ι World : Type) [DecidableEq ι] (p : Platform Val) : FileWAL load → Prop
  | fresh : InUse ι World p (new none)
  | used {w : FileWAL load} (h : InUse ι World p w) (world : World)
      (executors : ι → TransactionalExecutor (FileWAL load) World Val)
      (calls : List (ι × Event Val)) :
      InUse ι World p ((Sessions.mk w world executors).run p calls).wal
  | reopened {w : FileWAL load} (h : InUse ι World p w) : InUse ι World p (new w.file)

theorem InUse.sound {p : Platform Val} {w : FileWAL load} (h : InUse ι World p w) :
    (∃ text, Durable w text) ∧ Chained w.entries := by
  induction h with
  | fresh => exact ⟨⟨[], durable_new⟩, chained_nil⟩
  | @used w _ world executors calls ih =>
    obtain ⟨⟨text, htext⟩, hchain⟩ := ih
    have hgrows := Sessions.grows p calls ⟨w, world, executors⟩
    exact ⟨durable_of_grows hgrows htext, WAL.chained_of_grows hgrows hchain⟩
  | reopened _ ih =>
    obtain ⟨⟨text, htext⟩, hchain⟩ := ih
    obtain ⟨hdurable, hentries⟩ := htext.reopen
    refine ⟨⟨text, hdurable⟩, ?_⟩
    rw [hentries]
    exact hchain

theorem Durable.readAll {w : FileWAL load} {text : Str} (h : Durable w text) :
    ∃ w', FileWAL.readAll w = .ok w.entries w' := ⟨_, bind_ok h.loads _⟩

theorem Durable.contentOf {w : FileWAL load} {text : Str} (h : Durable w text) :
    contentOf load w.file = .ok w.entries := (contentOf_eq h.decoded).trans h.stored

def LikeWritten (load : Loader) (content : Bytes) : Prop :=
  ∃ log : FileWAL load, WAL.Grows (new none) log ∧ contentOf load (some content) = contentOf load log.file

theorem writable_contentOf {file : Option Bytes} {entries : List WALEntry}
    (h : contentOf load file = .ok entries) : ∀ e ∈ entries, Writable e := by
  obtain ⟨text, -, hentries⟩ := Pipeline.bind_ok h
  intro e he
  obtain ⟨line, -, hline⟩ := (mem_mapM_ok hentries e).mp he
  exact writable_entryOf load hline

theorem grows_of_chained (entries : List WALEntry) (hchain : Chained entries)
    (hwritable : ∀ e ∈ entries, Writable e) :
    ∃ log : FileWAL load, WAL.Grows (new none) log ∧ log.entries = entries := by
  induction entries using List.reverseRecOn with
  | nil => exact ⟨new none, Relation.ReflTransGen.refl, rfl⟩
  | append_singleton entries e ih =>
    obtain ⟨hfront, hsequence, hprev⟩ := (chained_concat entries e).mp hchain
    obtain ⟨log, hgrows, hentries⟩ := ih hfront fun e he => hwritable e (List.mem_append_left _ he)
    obtain ⟨text, hdurable⟩ := durable_of_grows hgrows durable_new
    have hlast : Writable e := hwritable e (List.mem_append_right _ (List.mem_singleton_self e))
    have happend : append e log = .ok () (added ⟨log.file, log.entries, true⟩ e) :=
      (append_ok_iff e log _).mpr ⟨_, hdurable.loads, by rw [hentries]; exact hsequence,
        by rw [hentries]; exact hprev, hlast, rfl⟩
    refine ⟨_, hgrows.tail ⟨e, accepted_of_append happend⟩, ?_⟩
    rw [entries_loaded (show (added ⟨log.file, log.entries, true⟩ e : FileWAL load).loaded = true
      from rfl)]
    change log.entries ++ [e] = entries ++ [e]
    rw [hentries]

theorem chained_iff_likeWritten {content : Bytes} {entries : List WALEntry}
    (h : contentOf load (some content) = .ok entries) : Chained entries ↔ LikeWritten load content := by
  constructor
  · intro hchain
    obtain ⟨log, hgrows, hentries⟩ :=
      grows_of_chained entries hchain (writable_contentOf h)
    obtain ⟨text, hdurable⟩ := durable_of_grows hgrows durable_new
    refine ⟨log, hgrows, ?_⟩
    rw [h, hdurable.contentOf, hentries]
  · rintro ⟨log, hgrows, hsame⟩
    obtain ⟨text, hdurable⟩ := durable_of_grows hgrows durable_new
    have hentries : entries = log.entries := by
      rw [h, hdurable.contentOf] at hsame
      exact Except.ok.inj hsame
    rw [hentries]
    exact WAL.chained_of_grows hgrows chained_nil

end FileWAL

open FileWAL in
/-- Runs keep the chain, files keep the runs, and nothing else is promised of a
file: what is read from it is a chain just where it reads like a log that was
written by appending. -/
theorem wal_chain_iff [WAL σ] (p : Platform Val) (load : Loader) :
    (∀ (s : Sessions ι σ World Val) (calls : List (ι × Event Val)), WAL.readAll s.wal = [] →
      Chained (WAL.readAll (s.run p calls).wal)) ∧
    (∀ w : FileWAL load, InUse ι World p w → ∃ entries w₁ w₂, FileWAL.readAll w = .ok entries w₁ ∧
      FileWAL.readAll (new w.file : FileWAL load) = .ok entries w₂ ∧ Chained entries) ∧
    (∀ content entries (w : FileWAL load), FileWAL.readAll (new (some content)) = .ok entries w →
      (Chained entries ↔ LikeWritten load content)) := by
  refine ⟨fun s calls hempty => ?_, fun w huse => ?_, fun content entries w hread => ?_⟩
  · refine WAL.chained_of_grows (s.grows p calls) ?_
    rw [hempty]
    exact chained_nil
  · obtain ⟨⟨text, hdurable⟩, hchain⟩ := huse.sound
    obtain ⟨hreopen, hentries⟩ := hdurable.reopen
    obtain ⟨w₁, hw₁⟩ := hdurable.readAll
    obtain ⟨w₂, hw₂⟩ := hreopen.readAll
    rw [hentries] at hw₂
    exact ⟨w.entries, w₁, w₂, hw₁, hw₂, hchain⟩
  · exact chained_iff_likeWritten ((readAll_new (some content) entries).mp ⟨w, hread⟩)

theorem begin_valid (n : ℕ) {txnId prevHash : Str} (htxn : RequiredText 128 txnId)
    (hprev : RequiredText 128 prevHash) :
    ({ sequence := n, txnId, kind := .begin_, timestampMs := 0, prevHash } : WALFields).Valid :=
  ⟨htxn, hprev, (by decide : TextsFit none none none none none none)⟩

def firstBegin : WALEntry := ⟨_, begin_valid 0 (by decide : RequiredText 128 (lit ['a'])) (by decide :
  RequiredText 128 genesisHash)⟩

def secondBegin : WALEntry :=
  ⟨_, begin_valid 1 (by decide : RequiredText 128 (lit ['b'])) (requiredText_lastHashOf [firstBegin])⟩

def plainLoader : Loader := ⟨0, fun _ => none, fun _ => none, nofun, nofun⟩

open FileWAL in
/-- The log of two transactions loses its first line, and recovery the
transaction on it: the rest is read without a complaint. -/
theorem removed_line_unnoticed :
    Chained [firstBegin, secondBegin] ∧
    (replay [firstBegin, secondBegin]).get? (lit ['a']) = some (txt "PENDING") ∧
    ∃ content, (∃ w : FileWAL plainLoader,
        FileWAL.readAll (new (some content)) = .ok [secondBegin] w) ∧
      ¬Chained [secondBegin] ∧ (replay [secondBegin]).get? (lit ['a']) = none := by
  refine ⟨?_, by decide, utf8 (secondBegin.canonicalPayload ++ [cp '\n']), ?_, ?_, by decide⟩
  · exact (chained_concat [firstBegin] secondBegin).mpr
      ⟨(chained_concat [] firstBegin).mpr ⟨chained_nil, rfl, rfl⟩, rfl, rfl⟩
  · have hplain : Plain (secondBegin.canonicalPayload ++ [cp '\n']) :=
      (JsonDoc.plain_writeObject secondBegin.plain_members).append
        (JsonDoc.plain_singleton (isSurrogate_cp _))
    have hwritable : Writable secondBegin := ⟨by decide, by decide⟩
    rw [readAll_new, contentOf_eq (utf8Decode_encode (utf8Encode_eq hplain))]
    exact entriesOf_payload hwritable
  · intro hchain
    exact absurd (hchain.sequence 0 (by decide)) (by decide)

end TexGovernance.Safeflow
